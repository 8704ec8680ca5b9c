import Clepsydra.Capture.Attempts
import Clepsydra.Capture.OneAttempt

/-!
Proves: as long as the reply to the last chunk arrives, a finished attempt stays finished and is
uploaded at most once.
-/

namespace Clepsydra.Capture

open Library Library.Transitions List
open Option (some.inj)

/-! ### Steps of the script -/

section Scripts

variable {tabId index : Nat} {browser : Browser} {script : Script}

theorem early_of_sends (situation : Situation tabId browser)
    (found : browser.scripts[index]? = some script) (idle : script.awaiting = false)
    (sends : ∃ message, script.message = some message) : Early tabId browser := by
  have undone : ¬HandedOver browser := by
    intro handed
    have done := handed.done script (mem_of_getElem? found)
    simp only [Script.isDone, idle, Bool.false_and, Bool.or_false, decide_eq_true_eq] at done
    obtain ⟨message, isMessage⟩ := sends
    simp only [Script.message, done] at isMessage
    cases isMessage
  rcases situation with early | uploading | ended
  · exact early
  · exact absurd uploading.handed undone
  · exact absurd ended.handed undone

theorem goes_deliver (attempted : Attempted tabId browser) (situation : Situation tabId browser)
    (found : browser.scripts[index]? = some script) (idle : script.awaiting = false)
    {message : Message} (sends : script.message = some message) :
    Goes tabId browser (handleMessage (browser.setScript index { script with awaiting := true })
        ⟨index, script.stage, script.tabId⟩ message) := by
  have early := early_of_sends situation found idle ⟨message, sends⟩
  have ⟨only, _, unstarted⟩ := attempted.only found
  have isTab := attempted.scripts script (mem_of_getElem? found)
  -- the metadata has been answered before anything else is sent
  have unanswered : ∀ {sent : Nat}, script.stage = .transferring sent →
      browser.tasks.countP Task.answersMeta = 0 := by
    intro sent isStage
    by_contra pending
    rcases attempted.waiting (Nat.pos_of_ne_zero pending) script (mem_of_getElem? found) with
      ⟨_, awaits⟩ | isOver
    · exact nomatch idle.symm.trans awaits
    · rw [isStage] at isOver
      exact nomatch isOver
  have waits : Attempted tabId (browser.setScript index { script with awaiting := true })
      ∧ (browser.setScript index { script with awaiting := true }).scripts
        = [{ script with awaiting := true }] := by
    refine attempted.setScript found (by rfl) (by rfl) ?_ ?_ ?_
    · exact attempted.reading script (mem_of_getElem? found)
    · intro _ sent _ isStage
      refine ⟨sent, isStage, ?_⟩
      rw [idle]
      exact Nat.sub_le sent 1
    · intro pending
      rcases attempted.waiting pending script (mem_of_getElem? found) with ⟨first, _⟩ | isOver
      · exact .inl ⟨first, rfl⟩
      · exact .inr isOver
  have waitsEarly : Early tabId (browser.setScript index { script with awaiting := true }) :=
    early.congr rfl rfl rfl
  have goes : Goes tabId (browser.setScript index { script with awaiting := true })
      (handleMessage (browser.setScript index { script with awaiting := true })
        ⟨index, script.stage, script.tabId⟩ message) := by
    rcases message_cases sends with ⟨captured, isCaptured, isStage, rfl⟩
      | ⟨captured, number, isCaptured, isStage, below, rfl⟩ | ⟨captured, error, _, isStage, rfl⟩
      | ⟨error, last, isStage, rfl⟩
    · apply goes_handleMeta waits.1 waitsEarly isTab (unanswered isStage)
      · rw [waits.2]
        simp
      · rw [waits.2]
        intro other member
        rw [mem_singleton.1 member]
        exact ⟨isStage, rfl⟩
      · rw [waits.2, owned_singleton]
        show script.capture.map _ = _
        rw [isCaptured]
        rfl
    · apply goes_handleChunk waits.1 waitsEarly waits.2 isCaptured isStage rfl below ?_ unstarted
        (unanswered isStage) isTab
      · show script.stage ≠ _
        rw [isStage]
        simp
      · intro buffer isBuffer
        have ⟨owner, isOwner, _, _, _, _, bounded⟩ :=
          attempted.buffers captured.captureId buffer isBuffer
        rw [only, mem_singleton] at isOwner
        rw [isOwner] at bounded
        have few := bounded (number + 1) isStage
        rw [idle] at few
        exact few
    · apply goes_handleAbort waits.1 waitsEarly isTab
      show script.stage ≠ _
      rw [isStage]
      simp
    · apply goes_handleError waits.1 waitsEarly isTab
      show script.stage ≠ _
      rw [isStage]
      simp
  exact ⟨goes.attempted, goes.situation, goes.terminal⟩

theorem Situation.setScript {moved : Script} (situation : Situation tabId browser)
    (scripts : (browser.setScript index moved).scripts = [moved])
    (found : browser.scripts[index]? = some script)
    (done : script.isDone = true → moved.isDone = true) :
    Situation tabId (browser.setScript index moved) := by
  have handedOver : HandedOver browser → HandedOver (browser.setScript index moved) := by
    intro handed
    refine ⟨?_, handed.started, handed.answered, handed.transfers⟩
    intro other member
    rw [scripts, mem_singleton] at member
    rw [member]
    exact done (handed.done script (mem_of_getElem? found))
  rcases situation with early | uploading | ended
  · exact .inl (early.congr rfl rfl rfl)
  · exact .inr (.inl ⟨handedOver uploading.handed, uploading.phase, uploading.oneTask,
      uploading.once⟩)
  · exact .inr (.inr ⟨handedOver ended.handed, ended.noTask, ended.once⟩)

variable (attempted : Attempted tabId browser) (situation : Situation tabId browser)

include attempted situation

theorem goes_respond (stage : Stage)
    (unanswered : stage = .transferring 0 → browser.tasks.countP Task.answersMeta = 0) :
    Goes tabId browser (respond browser index stage) := by
  unfold respond
  split
  · exact ⟨attempted, situation, fun _ isPhase _ => isPhase⟩
  · rename_i script found
    have member := mem_of_getElem? found
    split_ifs with replied
    · obtain ⟨awaiting, isStage⟩ := replied
      have moved : Attempted tabId
            (browser.setScript index { script with awaiting := false, stage := script.advanced })
          ∧ (browser.setScript index
              { script with awaiting := false, stage := script.advanced }).scripts
            = [{ script with awaiting := false, stage := script.advanced }] := by
        refine attempted.setScript found (by rfl) (by rfl) ?_ ?_ ?_
        · intro isReading
          apply attempted.reading script member
          unfold Script.advanced at isReading
          split at isReading
          · split_ifs at isReading
          · cases isReading
          · cases isReading
          · exact isReading
        · intro captured sent isCaptured isSent
          rw [awaiting]
          replace isSent : script.advanced = .transferring sent := isSent
          cases wasStage : script.stage with
          | transferring sent' =>
            simp only [Script.advanced, wasStage, isCaptured] at isSent
            split_ifs at isSent
            rw [Stage.transferring.injEq] at isSent
            exact ⟨sent', rfl, Nat.le_of_eq (by rw [← isSent]; rfl)⟩
          | _ =>
            simp only [Script.advanced, wasStage] at isSent
            cases isSent
        · intro pending
          rcases attempted.waiting pending script member with ⟨first, _⟩ | isOver
          · rw [unanswered (isStage.symm.trans first)] at pending
            exact absurd pending (Nat.lt_irrefl 0)
          · refine .inr ?_
            cases isNow : script.stage with
            | aborting | erring | finished => simp [Script.advanced, isNow, Stage.isOver]
            | reading | transferring =>
              rw [isNow] at isOver
              cases isOver
      refine ⟨moved.1, situation.setScript moved.2 found ?_, fun _ isPhase _ => isPhase⟩
      intro done
      simp only [Script.isDone, Bool.or_eq_true, decide_eq_true_eq, Bool.and_eq_true] at done
      rcases done with isFinished | ⟨_, atLast⟩
      · simp [Script.isDone, Script.advanced, isFinished]
      · unfold Script.atLastChunk at atLast
        split at atLast
        · rename_i captured sent isCaptured isSent
          simp only [decide_eq_true_eq] at atLast
          simp [Script.isDone, Script.advanced, isSent, isCaptured, atLast]
        · cases atLast
    · exact ⟨attempted, situation, fun _ isPhase _ => isPhase⟩

variable (found : browser.scripts[index]? = some script)

include found

theorem goes_sendFails (error : String)
    (arrives : ¬(script.awaiting = true ∧ script.atLastChunk = true)) :
    Goes tabId browser
      (browser.setScript index { script with awaiting := false, stage := script.failed error }) := by
  have member := mem_of_getElem? found
  have moved : Attempted tabId
        (browser.setScript index { script with awaiting := false, stage := script.failed error })
      ∧ (browser.setScript index
          { script with awaiting := false, stage := script.failed error }).scripts
        = [{ script with awaiting := false, stage := script.failed error }] := by
    refine attempted.setScript found (by rfl) (by rfl) ?_ ?_ ?_
    · intro isReading
      apply attempted.reading script member
      unfold Script.failed at isReading
      split at isReading
      · exact nomatch isReading
      · exact nomatch isReading
      · exact nomatch isReading
      · exact nomatch isReading
      · exact isReading
    · intro _ sent _ isSent
      unfold Script.failed at isSent
      split at isSent
      · exact nomatch isSent
      · exact nomatch isSent
      · exact nomatch isSent
      · exact nomatch isSent
      · rename_i notTransferring _ _ _
        exact absurd isSent (notTransferring sent)
    · intro pending
      rcases attempted.waiting pending script member with ⟨first, _⟩ | isOver
      · exact .inr (by simp [Script.failed, first, Stage.isOver])
      · refine .inr ?_
        cases isNow : script.stage with
        | aborting | finished => simp [Script.failed, isNow, Stage.isOver]
        | erring cause last => cases last <;> simp [Script.failed, isNow, Stage.isOver]
        | reading | transferring =>
          rw [isNow] at isOver
          cases isOver
  refine ⟨moved.1, situation.setScript moved.2 found ?_, fun _ isPhase _ => isPhase⟩
  intro done
  simp only [Script.isDone, Bool.or_eq_true, decide_eq_true_eq, Bool.and_eq_true] at done
  rcases done with isFinished | waits
  · simp [Script.isDone, Script.failed, isFinished]
  · exact absurd waits arrives

theorem goes_refuse (isReading : script.stage = .reading) (error : String) (thrown : Bool) :
    Goes tabId browser (browser.setScript index { script with stage := .erring error thrown }) := by
  have moved : Attempted tabId
        (browser.setScript index { script with stage := .erring error thrown })
      ∧ (browser.setScript index { script with stage := .erring error thrown }).scripts
        = [{ script with stage := .erring error thrown }] :=
    attempted.setScript found (by rfl) (by rfl) nofun nofun (fun _ => .inr rfl)
  refine ⟨moved.1, situation.setScript moved.2 found ?_, fun _ isPhase _ => isPhase⟩
  intro done
  simp [Script.isDone, Script.atLastChunk, isReading] at done

theorem goes_read (isReading : script.stage = .reading) (captured : Captured) :
    Goes tabId browser (browser.setScript index
        { script with capture := some captured, stage := .transferring 0 }) := by
  have member := mem_of_getElem? found
  have ⟨only, isFirst, unstarted⟩ := attempted.only found
  have without := attempted.reading script member isReading
  have unowned : ∀ captureId, ¬Owned browser.scripts captureId := by
    intro captureId owned
    rw [only, owned_singleton, without] at owned
    exact nomatch owned
  have unanswered : browser.tasks.countP Task.answersMeta = 0 := by
    by_contra pending
    rcases attempted.waiting (Nat.pos_of_ne_zero pending) script member with ⟨first, _⟩ | isOver
    · exact nomatch isReading.symm.trans first
    · rw [isReading] at isOver
      exact nomatch isOver
  have scripts : (browser.setScript index
      { script with capture := some captured, stage := .transferring 0 }).scripts
      = [{ script with capture := some captured, stage := .transferring 0 }] := by
    show browser.scripts.set index _ = _
    rw [only, isFirst]
    rfl
  have moved : Attempted tabId (browser.setScript index
      { script with capture := some captured, stage := .transferring 0 }) := by
    refine { attempted with
      scripts := ?_, single := ?_, transfers := ?_, tasks := ?_, waiting := ?_, buffers := ?_
      reading := ?_, unread := fun _ => unanswered }
    · intro other isOther
      rw [scripts, mem_singleton] at isOther
      rw [isOther]
      exact attempted.scripts script member
    · rw [scripts]
      show 1 + browser.tasks.countP Task.starts ≤ 1
      omega
    · intro captureId transfer isTransfer
      exact absurd (attempted.transfers captureId transfer isTransfer).2 (unowned captureId)
    · intro task isTask
      exact (attempted.tasks task isTask).mono
        (fun captureId owned => absurd owned (unowned captureId))
    · intro pending
      rw [show (browser.setScript index _).tasks = browser.tasks from rfl, unanswered] at pending
      exact absurd pending (Nat.lt_irrefl 0)
    · intro captureId buffer isBuffer
      have ⟨owner, isOwner, capture, isCapture, isId, _⟩ :=
        attempted.buffers captureId buffer isBuffer
      exact absurd ⟨owner, isOwner, by rw [isCapture, ← isId]; rfl⟩ (unowned captureId)
    · intro other isOther
      rw [scripts, mem_singleton] at isOther
      rw [isOther]
      exact nofun
  refine ⟨moved, situation.setScript scripts found ?_, fun _ isPhase _ => isPhase⟩
  intro done
  simp [Script.isDone, Script.atLastChunk, isReading] at done

end Scripts

/-! ### Tasks -/

section Tasks

variable {tabId index : Nat} {browser : Browser} {task : Task}

def Browser.without (browser : Browser) (index : Nat) : Browser :=
  { browser with tasks := browser.tasks.eraseIdx index }

theorem Attempted.without (attempted : Attempted tabId browser)
    (found : browser.tasks[index]? = some task) : Attempted tabId (browser.without index) := by
  have starts := countP_resumed found Task.starts
  have answers := countP_resumed found Task.answersMeta
  have single := attempted.single
  have replies := attempted.replies
  refine { attempted with single := ?_, tasks := ?_, replies := ?_, waiting := ?_, unread := ?_ }
  · show browser.scripts.length + (browser.tasks.eraseIdx index).countP Task.starts ≤ 1
    omega
  · intro other member
    exact attempted.tasks other (mem_of_mem_eraseIdx member)
  · show (browser.tasks.eraseIdx index).countP Task.answersMeta ≤ 1
    omega
  · intro pending
    have stillPending : 0 < (browser.tasks.eraseIdx index).countP Task.answersMeta := pending
    exact attempted.waiting (by omega)
  · intro empty
    have none := attempted.unread empty
    show (browser.tasks.eraseIdx index).countP Task.answersMeta = 0
    omega

theorem Early.without (early : Early tabId browser) (found : browser.tasks[index]? = some task) :
    Early tabId (browser.without index) := by
  have uploads := countP_resumed found Task.isUpload
  have none := early.noTask
  refine ⟨early.phase, ?_, early.noUpload⟩
  show (browser.tasks.eraseIdx index).countP Task.isUpload = 0
  omega

theorem HandedOver.without (handed : HandedOver browser)
    (found : browser.tasks[index]? = some task) : HandedOver (browser.without index) := by
  have starts := countP_resumed found Task.starts
  have answers := countP_resumed found Task.answersMeta
  have noStart := handed.started
  have noAnswer := handed.answered
  refine ⟨handed.done, ?_, ?_, handed.transfers⟩
  · show (browser.tasks.eraseIdx index).countP Task.starts = 0
    omega
  · show (browser.tasks.eraseIdx index).countP Task.answersMeta = 0
    omega

theorem Situation.without (situation : Situation tabId browser)
    (found : browser.tasks[index]? = some task) (other : task.isUpload = false) :
    Situation tabId (browser.without index) := by
  have uploads := countP_resumed found Task.isUpload
  have unsent := countP_resumed found Task.isUnsent
  rw [other] at uploads
  rcases situation with early | uploading | ended
  · exact .inl (early.without found)
  · refine .inr (.inl ⟨uploading.handed.without found, uploading.phase, ?_, ?_⟩)
    · rw [← uploading.oneTask, uploads]
      rfl
    · have once := uploading.once
      show browser.uploads.length + (browser.tasks.eraseIdx index).countP Task.isUnsent ≤ 1
      omega
  · refine .inr (.inr ⟨ended.handed.without found, ?_, ended.once⟩)
    rw [← ended.noTask, uploads]
    rfl

theorem early_of_task (situation : Situation tabId browser)
    (found : browser.tasks[index]? = some task)
    (unhanded : task.starts = true ∨ task.answersMeta = true) : Early tabId browser := by
  have undone : ¬HandedOver browser := by
    intro handed
    have noStart := handed.started
    have noAnswer := handed.answered
    have starts := countP_resumed found Task.starts
    have answers := countP_resumed found Task.answersMeta
    rcases unhanded with isStart | isAnswer
    · rw [isStart, if_pos rfl] at starts
      omega
    · rw [isAnswer, if_pos rfl] at answers
      omega
  rcases situation with early | uploading | ended
  · exact early
  · exact absurd uploading.handed undone
  · exact absurd ended.handed undone

theorem uploading_of_task (situation : Situation tabId browser)
    (found : browser.tasks[index]? = some task) (isUpload : task.isUpload = true) :
    Uploading tabId browser := by
  have uploads := countP_resumed found Task.isUpload
  rw [isUpload, if_pos rfl] at uploads
  rcases situation with early | uploading | ended
  · have none := early.noTask
    omega
  · exact uploading
  · have none := ended.noTask
    omega

variable (attempted : Attempted tabId browser)

include attempted

theorem Attempted.inject (empty : browser.scripts = [])
    (unstarted : browser.tasks.countP Task.starts = 0) :
    Attempted tabId
      { browser with scripts := browser.scripts ++ [⟨tabId, 0, none, .reading, false⟩] } := by
  have unowned : ∀ captureId, ¬Owned browser.scripts captureId := by
    intro captureId owned
    have ⟨script, member, _⟩ := owned
    rw [empty] at member
    exact nomatch member
  have one : browser.scripts ++ [(⟨tabId, 0, none, .reading, false⟩ : Script)]
      = [⟨tabId, 0, none, .reading, false⟩] := by
    rw [empty]
    rfl
  rw [one]
  refine { attempted with
    scripts := ?_, single := ?_, transfers := ?_, tasks := ?_, waiting := ?_, buffers := ?_
    reading := ?_, unread := nofun }
  · intro script member
    rw [mem_singleton.1 member]
  · show 1 + browser.tasks.countP Task.starts ≤ 1
    omega
  · intro captureId transfer isTransfer
    exact absurd (attempted.transfers captureId transfer isTransfer).2 (unowned captureId)
  · intro task isTask
    exact (attempted.tasks task isTask).mono
      (fun captureId owned => absurd owned (unowned captureId))
  · intro pending
    have none := attempted.unread empty
    rw [none] at pending
    exact absurd pending (Nat.lt_irrefl 0)
  · intro captureId buffer isBuffer
    have ⟨owner, isOwner, captured, isCaptured, isId, _⟩ :=
      attempted.buffers captureId buffer isBuffer
    exact absurd ⟨owner, isOwner, by rw [isCaptured, ← isId]; rfl⟩ (unowned captureId)
  · intro script member
    rw [mem_singleton.1 member]
    exact fun _ => rfl

theorem Attempted.starting (found : browser.tasks[index]? = some task) (starts : task.starts = true)
    :
    browser.scripts = [] ∧ (browser.without index).tasks.countP Task.starts = 0 := by
  have counted := countP_resumed found Task.starts
  rw [starts, if_pos rfl] at counted
  have single := attempted.single
  refine ⟨eq_nil_of_length_eq_zero (by omega), ?_⟩
  show (browser.tasks.eraseIdx index).countP Task.starts = 0
  omega

variable (situation : Situation tabId browser) (found : browser.tasks[index]? = some task)

include situation found

theorem goes_start {next : Browser} {outcome : Outcome} (starts : task.starts = true)
    (runs : runTask (browser.without index) outcome task = some next)
    :
    Goes tabId browser next := by
  have early := early_of_task situation found (.inl starts)
  have resumed := attempted.without found
  have resumedEarly := early.without found
  obtain ⟨empty, unstarted⟩ := attempted.starting found starts
  have failed : ∀ detail : String, Goes tabId browser
      (reportPhase (browser.without index) tabId 0 .error detail {}).1 := by
    intro detail
    have reports := resumedEarly.report resumed detail {} (.inr (.inr rfl))
    exact ⟨reports.1, .inl reports.2.1, early.keepsTerminal reports.2.2⟩
  have own := attempted.tasks task (mem_of_getElem? found)
  cases task with
  | fetchTab tab attemptId =>
    obtain ⟨rfl, rfl⟩ := own
    cases outcome with
    | ok =>
      simp only [runTask] at runs
      split_ifs at runs
      · rw [← some.inj runs]
        refine ⟨?_, .inl ?_, fun _ isPhase _ => isPhase⟩
        · have counts := countP_addTask (browser.without index) (.executeScript tab 0)
            Task.answersMeta
          refine { resumed with
            single := ?_, tasks := ?_, replies := ?_, waiting := ?_, unread := ?_ }
          · rw [countP_addTask, unstarted]
            show browser.scripts.length + 1 ≤ 1
            rw [empty]
            exact Nat.le_refl 1
          · intro other member
            rcases mem_append.1 member with old | new
            · exact resumed.tasks other old
            · rw [mem_singleton.1 new]
              exact ⟨rfl, rfl⟩
          · rw [counts]
            exact resumed.replies
          · rw [counts]
            exact resumed.waiting
          · rw [counts]
            exact resumed.unread
        · refine resumedEarly.congr rfl ?_ rfl
          rw [countP_addTask]
          rfl
      · rw [← some.inj runs]
        exact ⟨resumed, .inl resumedEarly, fun _ isPhase _ => isPhase⟩
    | failed reason =>
      rw [← some.inj runs]
      exact failed _
    | _ => cases runs
  | executeScript tab attemptId =>
    obtain ⟨rfl, rfl⟩ := own
    cases outcome with
    | ok =>
      rw [← some.inj runs]
      exact ⟨resumed.inject empty unstarted, .inl (resumedEarly.congr rfl rfl rfl),
        fun _ isPhase _ => isPhase⟩
    | failed detail =>
      rw [← some.inj runs]
      exact failed _
    | _ => cases runs
  | _ => cases starts

theorem goes_upload {next : Browser} {outcome : Outcome} (isUpload : task.isUpload = true)
    (runs : runTask (browser.without index) outcome task = some next) :
    Goes tabId browser next := by
  have uploading := uploading_of_task situation found isUpload
  have keeps : ∀ {after : Browser}, KeepsTerminal tabId browser after :=
    keepsTerminal_of_running uploading.phase
  have resumed := attempted.without found
  have handed := uploading.handed.without found
  have noTask : (browser.without index).tasks.countP Task.isUpload = 0 := by
    have uploads := countP_resumed found Task.isUpload
    rw [isUpload, if_pos rfl, uploading.oneTask] at uploads
    show (browser.tasks.eraseIdx index).countP Task.isUpload = 0
    omega
  have once := uploading.once
  have unsent := countP_resumed found Task.isUnsent
  -- the upload ends with a report, or without one
  have ended : ∀ {after : Browser} (upload : Upload), Attempted tabId after → HandedOver after →
      after.tasks.countP Task.isUpload = 0 → after.uploads = browser.uploads →
      Goes tabId browser (finished after upload) := by
    intro after upload attemptedAfter handedAfter noTaskAfter sameUploads
    have own : TaskOfAttempt tabId after.scripts (.release upload.metadata.url) := trivial
    refine ⟨attemptedAfter.addTask own rfl rfl, .inr (.inr ⟨handedAfter.addTask rfl rfl, ?_, ?_⟩),
      keeps⟩
    · rw [finished, countP_addTask, noTaskAfter]
      rfl
    · show after.uploads.length ≤ 1
      rw [sameUploads]
      omega
  have reports : ∀ (upload : Upload) (phase : CapturePhase) (detail : String)
      (extra : CaptureStatusExtra), Goes tabId browser
        (finished (reportPhase (browser.without index) tabId 0 phase detail extra).1 upload) := by
    intro upload phase detail extra
    obtain ⟨status, own, _, isReport⟩ := reportPhase_own resumed phase detail extra
    rw [isReport]
    exact ended upload (resumed.setStatus own) { handed with } noTask rfl
  have own := attempted.tasks task (mem_of_getElem? found)
  cases task with
  | loadSettings tab upload =>
    obtain ⟨rfl, isAttempt⟩ := own
    cases outcome with
    | ok =>
      obtain ⟨status, ownStatus, isPhase, isReport⟩ := reportPhase_own resumed .uploading
        (describePhase .uploading) {}
      simp only [runTask, isAttempt, isReport] at runs
      rw [← some.inj runs]
      have ownTask : TaskOfAttempt tab (browser.without index).scripts
        (.reportUploading tab status.updatedAt upload) := ⟨rfl, isAttempt⟩
      refine ⟨(resumed.setStatus ownStatus).addTask ownTask rfl rfl, .inr (.inl ⟨?_, ?_, ?_, ?_⟩),
        keeps⟩
      · refine HandedOver.addTask ?_ rfl rfl
        exact { handed with }
      · refine ⟨status.phase, phaseOf_setStatus _ _ _, ?_⟩
        rw [isPhase]
        rfl
      · rw [countP_addTask]
        show (browser.without index).tasks.countP Task.isUpload + 1 = 1
        rw [noTask]
      · rw [countP_addTask]
        show browser.uploads.length + ((browser.tasks.eraseIdx index).countP Task.isUnsent + 1) ≤ 1
        rw [show (Task.loadSettings tab upload).isUnsent = true from rfl, if_pos rfl] at unsent
        omega
    | failed error =>
      simp only [runTask, isAttempt] at runs
      rw [← some.inj runs]
      exact reports upload .error error {}
    | _ => cases runs
  | reportUploading tab updatedAt upload =>
    obtain ⟨rfl, isAttempt⟩ := own
    cases outcome with
    | ok =>
      simp only [runTask] at runs
      split_ifs at runs
      · rw [← some.inj runs]
        have ownTask : TaskOfAttempt tab (browser.without index).scripts
          (.ingestArchive tab upload) := ⟨rfl, isAttempt⟩
        have sent : Attempted tab
            { browser.without index with uploads := browser.uploads ++ [upload] } :=
          { resumed with }
        refine ⟨sent.addTask ownTask rfl rfl, .inr (.inl ⟨?_, uploading.phase, ?_, ?_⟩), keeps⟩
        · refine HandedOver.addTask ?_ rfl rfl
          exact { handed with }
        · rw [countP_addTask]
          show (browser.without index).tasks.countP Task.isUpload + 1 = 1
          rw [noTask]
        · rw [countP_addTask]
          show (browser.uploads ++ [upload]).length
            + (browser.tasks.eraseIdx index).countP Task.isUnsent ≤ 1
          rw [length_append, length_singleton]
          rw [show (Task.reportUploading tab updatedAt upload).isUnsent = true from rfl,
            if_pos rfl] at unsent
          omega
      · rw [← some.inj runs]
        exact ended upload resumed handed noTask rfl
    | failed error =>
      simp only [runTask, isAttempt] at runs
      rw [← some.inj runs]
      exact reports upload .error error {}
    | _ => cases runs
  | ingestArchive tab upload =>
    obtain ⟨rfl, isAttempt⟩ := own
    simp only [runTask, isAttempt] at runs
    split at runs
    · cases runs
    · rename_i phase detail extra _
      rw [← some.inj runs]
      exact reports upload phase detail extra
  | _ => cases isUpload

theorem goes_resume {next : Browser} {outcome : Outcome}
    (runs : runTask (browser.without index) outcome task = some next) :
    Goes tabId browser next := by
  have own := attempted.tasks task (mem_of_getElem? found)
  have answers := countP_resumed found Task.answersMeta
  have replies := attempted.replies
  cases task with
  | fetchTab | executeScript => exact goes_start attempted situation found rfl runs
  | loadSettings | reportUploading | ingestArchive =>
    exact goes_upload attempted situation found rfl runs
  | claimedError script stage tab detail => exact own.elim
  | release url =>
    rw [← some.inj runs]
    have resumed := attempted.without found
    have same := situation.without found rfl
    refine ⟨{ resumed with }, ?_, fun _ isPhase _ => isPhase⟩
    rcases same with early | uploading | ended
    · exact .inl (early.congr rfl rfl rfl)
    · exact .inr (.inl ⟨{ uploading.handed with }, uploading.phase, uploading.oneTask,
        uploading.once⟩)
    · exact .inr (.inr ⟨{ ended.handed with }, ended.noTask, ended.once⟩)
  | respond script stage =>
    rw [← some.inj runs]
    have goes := @goes_respond tabId script (browser.without index) (attempted.without found)
      (situation.without found rfl) stage (by
        intro first
        rw [first] at answers
        rw [show (Task.respond script (.transferring 0)).answersMeta = true from rfl,
          if_pos rfl] at answers
        show (browser.tasks.eraseIdx index).countP Task.answersMeta = 0
        omega)
    exact ⟨goes.attempted, goes.situation, goes.terminal⟩
  | acceptMetadata script stage tab attemptId updatedAt captureId metadata =>
    obtain ⟨rfl, rfl, owned⟩ := own
    have early := early_of_task situation found (.inr rfl)
    have resumed := attempted.without found
    have resumedEarly := early.without found
    have unanswered : (browser.without index).tasks.countP Task.answersMeta = 0 := by
      rw [show (Task.acceptMetadata script stage tab 0 updatedAt captureId metadata).answersMeta
        = true from rfl, if_pos rfl] at answers
      show (browser.tasks.eraseIdx index).countP Task.answersMeta = 0
      omega
    have timed : ∀ {after : Browser}, Attempted tab after → Early tab after →
        after.tasks = (browser.without index).tasks → after.statuses = browser.statuses →
        Goes tab browser (respond after script stage) := by
      intro after attemptedAfter earlyAfter sameTasks sameStatuses
      have goes := @goes_respond tab script after attemptedAfter (.inl earlyAfter) stage (by
        intro _
        rw [sameTasks]
        exact unanswered)
      refine ⟨goes.attempted, goes.situation, ?_⟩
      intro phase isPhase terminal
      apply goes.terminal phase _ terminal
      rw [phaseOf, sameStatuses]
      exact isPhase
    simp only [runTask] at runs
    rw [← some.inj runs]
    split_ifs
    · exact timed (resumed.resetTimer owned) (resumedEarly.congr rfl rfl rfl) rfl rfl
    · exact timed resumed resumedEarly rfl rfl

omit found

theorem goes_expire {captureId : String} {transfer : PendingTransfer}
    (isTransfer : browser.transfers captureId = some transfer) :
    Goes tabId browser (expire browser captureId transfer) := by
  have undone : ¬HandedOver browser := by
    intro handed
    rw [handed.transfers captureId] at isTransfer
    exact nomatch isTransfer
  have early : Early tabId browser := by
    rcases situation with early | uploading | ended
    · exact early
    · exact absurd uploading.handed undone
    · exact absurd ended.handed undone
  have clean := attempted.cleanup captureId
  have cleanEarly : Early tabId (cleanup browser captureId) := early.congr rfl rfl rfl
  have isTab := (attempted.transfers captureId transfer isTransfer).1
  unfold expire
  simp only
  split
  · exact ⟨clean, .inl cleanEarly, fun _ isPhase _ => isPhase⟩
  · rename_i captureAttempt isBound
    have own := attempted.bound captureId captureAttempt isBound
    rw [isTab, own.2]
    split_ifs
    · exact ⟨clean, .inl cleanEarly, fun _ isPhase _ => isPhase⟩
    · have reports := cleanEarly.report clean
        ("Snapshot transfer " ++ captureId ++ " expired after 30 seconds of inactivity.") {}
        (.inr (.inr rfl))
      exact ⟨reports.1, .inl reports.2.1, early.keepsTerminal reports.2.2⟩

end Tasks

/-! ### Runs -/

def Step.isOfAttempt : Step → Bool
  | .start _ _ | .removeTab _ | .restart _ _ => false
  | _ => true

def LastReplyArrives (browser : Browser) : Step → Prop
  | .sendFails index _ => ∀ script, browser.scripts[index]? = some script →
      ¬(script.awaiting = true ∧ script.atLastChunk = true)
  | _ => True

instance (browser : Browser) (taken : Step) : Decidable (LastReplyArrives browser taken) :=
  match taken with
  | .sendFails index _ =>
    match found : browser.scripts[index]? with
    | none => isTrue fun _ isScript => nomatch found.symm.trans isScript
    | some script =>
      decidable_of_iff (¬(script.awaiting = true ∧ script.atLastChunk = true))
        ⟨fun holds _ isScript => some.inj (found.symm.trans isScript) ▸ holds,
          fun holds => holds script found⟩
  | .tick | .start _ _ | .read _ _ | .refuse _ _ _ | .deliver _ | .resume _ _ | .expire _
  | .recover _ | .forgetAbort _ | .written _ | .removeTab _ | .restart _ _ => isTrue trivial

theorem goes_step {tabId : Nat} {browser next : Browser} {taken : Step}
    (attempted : Attempted tabId browser) (situation : Situation tabId browser)
    (ofAttempt : taken.isOfAttempt = true) (arrives : LastReplyArrives browser taken)
    (steps : step browser taken = some next) : Goes tabId browser next := by
  -- what is neither status, script, transfer, upload nor task
  have same : ∀ {clock : Nat} {recentAborts : Nat → Option RecentAbort} {writes : List Statuses}
      {stored : Statuses}, Goes tabId browser
        { browser with clock, recentAborts, writes, stored } := by
    intro clock recentAborts writes stored
    refine ⟨{ attempted with }, ?_, fun _ isPhase _ => isPhase⟩
    rcases situation with early | uploading | ended
    · exact .inl (early.congr rfl rfl rfl)
    · exact .inr (.inl ⟨{ uploading.handed with }, uploading.phase, uploading.oneTask,
        uploading.once⟩)
    · exact .inr (.inr ⟨{ ended.handed with }, ended.noTask, ended.once⟩)
  unfold step at steps
  cases taken with
  | start | removeTab | restart => exact nomatch ofAttempt
  | tick =>
    rw [← some.inj steps]
    exact same
  | read index capture =>
    simp only at steps
    split at steps
    · exact nomatch steps
    · rename_i script found
      split_ifs at steps with readable
      rw [← some.inj steps]
      exact goes_read attempted situation found readable.1 capture
  | refuse index error thrown =>
    simp only at steps
    split at steps
    · exact nomatch steps
    · rename_i script found
      split_ifs at steps with isReading
      rw [← some.inj steps]
      exact goes_refuse attempted situation found isReading error thrown
  | deliver index =>
    simp only at steps
    split at steps
    · exact nomatch steps
    · rename_i script found
      split_ifs at steps with awaiting
      split at steps
      · exact nomatch steps
      · rename_i message sends
        rw [← some.inj steps]
        exact goes_deliver attempted situation found (by simpa using awaiting) sends
  | sendFails index error =>
    simp only at steps
    split at steps
    · exact nomatch steps
    · rename_i script found
      rw [← some.inj steps]
      exact goes_sendFails attempted situation found error (arrives script found)
  | resume index outcome =>
    simp only at steps
    split at steps
    · exact nomatch steps
    · rename_i task found
      exact goes_resume attempted situation found steps
  | expire captureId =>
    simp only at steps
    split at steps
    · exact nomatch steps
    · rename_i transfer isTransfer
      rw [← some.inj steps]
      exact goes_expire attempted situation isTransfer
  | recover index =>
    simp only [attempted.recoveries, getElem?_nil] at steps
    exact nomatch steps
  | forgetAbort tab =>
    simp only at steps
    split at steps
    · exact nomatch steps
    · split_ifs at steps
      rw [← some.inj steps]
      exact same
  | written stored =>
    simp only at steps
    split at steps
    · exact nomatch steps
    · rw [← some.inj steps]
      exact same

def InOrder (tabId : Nat) (terminal : Option CapturePhase) (browser : Browser) : Prop :=
  Attempted tabId browser ∧ Situation tabId browser
    ∧ ∀ phase, terminal = some phase → phase.isTerminal = true → phaseOf browser tabId = some phase

theorem inOrder_run {tabId : Nat} {terminal : Option CapturePhase} {browser final : Browser}
    {actions : List Step} (inOrder : InOrder tabId terminal browser)
    (ofAttempt : ∀ taken ∈ actions, taken.isOfAttempt = true)
    (arrives : Throughout step LastReplyArrives browser actions)
    (runs : run step browser actions = some final) : InOrder tabId terminal final := by
  refine invariant_of_throughout (fun current taken next holds meets steps => ?_) inOrder
    (throughout_and (throughout_of_forall ofAttempt) arrives) runs
  have goes := goes_step holds.1 holds.2.1 meets.1 meets.2 steps
  refine ⟨goes.attempted, goes.situation, ?_⟩
  intro phase isPhase isTerminal
  exact goes.terminal phase (holds.2.2 phase isPhase isTerminal) isTerminal

theorem inOrder_begun {tabId : Nat} {tags : List String} {first : Browser}
    (begins : step Browser.initial (.start tabId tags) = some first) :
    InOrder tabId none first := by
  have isFirst := (some.inj begins).symm
  have status : first.statuses tabId
      = some ⟨.capturing, describePhase .capturing, 0, 0, 0, normalizeCaptureTags tags, none, none,
        none, none⟩ := by
    rw [isFirst]
    exact Function.update_self _ _ _
  have tasks : first.tasks = [.fetchTab tabId 0] := by
    rw [isFirst]
    rfl
  have scripts : first.scripts = [] := by
    rw [isFirst]
    rfl
  refine ⟨⟨⟨_, status, rfl⟩, by rw [isFirst]; rfl, ?_, ?_, ?_, ?_, ?_, ?_, ?_, ?_, ?_, ?_⟩,
    .inl ⟨.inl ?_, ?_, ?_⟩, nofun⟩
  · intro script member
    rw [scripts] at member
    exact nomatch member
  · rw [scripts, tasks]
    exact Nat.le_refl 1
  · intro captureId attempt isAttempt
    rw [isFirst] at isAttempt
    exact nomatch isAttempt
  · intro captureId transfer isTransfer
    rw [isFirst] at isTransfer
    exact nomatch isTransfer
  · intro task member
    rw [tasks, mem_singleton] at member
    rw [member]
    exact ⟨rfl, rfl⟩
  · rw [tasks]
    exact Nat.zero_le 1
  · intro _ script member
    rw [scripts] at member
    exact nomatch member
  · intro captureId buffer isBuffer
    rw [isFirst] at isBuffer
    exact nomatch isBuffer
  · intro script member
    rw [scripts] at member
    exact nomatch member
  · intro _
    rw [tasks]
    rfl
  · rw [phaseOf, status]
    rfl
  · rw [tasks]
    rfl
  · rw [isFirst]
    rfl

/-- If no script loses its last reply, a finished attempt stays as it is, with at most one upload. -/
theorem finished_capture_stays_finished (tabId : Nat) (tags : List String)
    {first middle final : Browser} {before after : List Step}
    (begins : step Browser.initial (.start tabId tags) = some first)
    (ofAttempt : ∀ taken ∈ before ++ after, taken.isOfAttempt = true)
    (arrives : Throughout step LastReplyArrives first (before ++ after))
    (reached : run step first before = some middle) (runs : run step middle after = some final) :
    (∀ phase, phaseOf middle tabId = some phase → phase.isTerminal = true →
        phaseOf final tabId = some phase)
      ∧ final.uploads.length ≤ 1 := by
  have inMiddle : InOrder tabId none middle := by
    apply inOrder_run (inOrder_begun begins) _ (throughout_of_append_left arrives) reached
    exact fun taken member => ofAttempt taken (mem_append_left _ member)
  have fromMiddle : InOrder tabId (phaseOf middle tabId) middle :=
    ⟨inMiddle.1, inMiddle.2.1, fun _ isPhase _ => isPhase⟩
  have atEnd : InOrder tabId (phaseOf middle tabId) final := by
    apply inOrder_run fromMiddle _ (throughout_of_append arrives reached) runs
    exact fun taken member => ofAttempt taken (mem_append_right _ member)
  refine ⟨atEnd.2.2, ?_⟩
  rcases atEnd.2.1 with early | uploading | ended
  · rw [early.noUpload]
    exact Nat.zero_le 1
  · have once := uploading.once
    omega
  · exact ended.once

def archivedOnce : List Step :=
  [.resume 0 .ok, .resume 0 .ok, .read 0 onePage, .deliver 0, .resume 0 .ok, .deliver 0,
    .resume 0 .ok, .resume 1 .ok, .resume 1 (.created "Archive/Page.md" "page")]

def lastReplyLost : List Step :=
  [.sendFails 0 "The message port closed", .deliver 0, .resume 2 .ok, .deliver 0]

def phasesAlong (before after : List Step) : Option (Option CapturePhase × Option CapturePhase) :=
  (step Browser.initial (.start 7 [])).bind fun first =>
    (run step first before).bind fun middle =>
      (run step middle after).map fun final => (phaseOf middle 7, phaseOf final 7)

theorem phasesAlong_eq_some {before after : List Step} {phases : Option CapturePhase × Option CapturePhase}
    (evaluated : phasesAlong before after = some phases) :
    ∃ first middle final, step Browser.initial (.start 7 []) = some first
      ∧ run step first before = some middle ∧ run step middle after = some final
      ∧ phaseOf middle 7 = phases.1 ∧ phaseOf final 7 = phases.2 := by
  have ⟨first, begins, rest⟩ := Option.bind_eq_some_iff.1 evaluated
  have ⟨middle, reached, more⟩ := Option.bind_eq_some_iff.1 rest
  have ⟨final, runs, isPhases⟩ := Option.map_eq_some_iff.1 more
  exact ⟨first, middle, final, begins, reached, runs, congrArg Prod.fst isPhases,
    congrArg Prod.snd isPhases⟩

theorem finished_capture_stays_finished_archived :
    ∃ first middle final, step Browser.initial (.start 7 []) = some first
      ∧ Throughout step LastReplyArrives first
        (archivedOnce ++ [.resume 0 .ok, .sendFails 0 "The page is gone", .resume 0 .ok])
      ∧ run step first archivedOnce = some middle
      ∧ run step middle [.resume 0 .ok, .sendFails 0 "The page is gone", .resume 0 .ok] = some final
      ∧ phaseOf middle 7 = some .done ∧ phaseOf final 7 = some .done
      ∧ final.uploads.length ≤ 1 := by
  have evaluated : phasesAlong archivedOnce
      [.resume 0 .ok, .sendFails 0 "The page is gone", .resume 0 .ok]
      = some (some .done, some .done) := by decide
  have conditions : ∀ first, step Browser.initial (.start 7 []) = some first →
      Throughout step LastReplyArrives first
        (archivedOnce ++ [.resume 0 .ok, .sendFails 0 "The page is gone", .resume 0 .ok]) := by
    intro first begins
    rw [← some.inj begins]
    decide
  have ⟨first, middle, final, begins, reached, runs, inMiddle, _⟩ := phasesAlong_eq_some evaluated
  have stays := finished_capture_stays_finished 7 [] begins (by decide) (conditions first begins)
    reached runs
  exact ⟨first, middle, final, begins, conditions first begins, reached, runs, inMiddle,
    stays.1 .done inMiddle rfl, stays.2⟩

/-- An archived page becomes a failed capture when its last reply is lost. -/
theorem last_reply_lost_reopens_capture :
    ¬∀ (tabId : Nat) (tags : List String) (first middle final : Browser)
      (before after : List Step), step Browser.initial (.start tabId tags) = some first →
      (∀ taken ∈ before ++ after, taken.isOfAttempt = true) →
      run step first before = some middle → run step middle after = some final →
      (∀ phase, phaseOf middle tabId = some phase → phase.isTerminal = true →
          phaseOf final tabId = some phase)
        ∧ final.uploads.length ≤ 1 := by
  intro always
  have evaluated : phasesAlong archivedOnce lastReplyLost = some (some .done, some .error) := by
    decide
  have ⟨first, middle, final, begins, reached, runs, inMiddle, atEnd⟩ :=
    phasesAlong_eq_some evaluated
  have stays := (always 7 [] first middle final archivedOnce lastReplyLost begins (by decide)
    reached runs).1 .done inMiddle rfl
  rw [atEnd] at stays
  exact nomatch stays

end Clepsydra.Capture
