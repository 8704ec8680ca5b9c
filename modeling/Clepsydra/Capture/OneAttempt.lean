import Clepsydra.Capture.Worker

/-!
Owns: the life of one attempt: before its snapshot is complete, while it is uploaded, and after.

Proves: each message of its script keeps the attempt in order until the last chunk.
-/

namespace Clepsydra.Capture

open Library Library.Transitions List Function Option

/-! ### Kinds of tasks -/

def Task.starts : Task → Bool
  | .fetchTab _ _ | .executeScript _ _ => true
  | _ => false

def Task.answersMeta : Task → Bool
  | .acceptMetadata _ _ _ _ _ _ _ | .respond _ (.transferring 0) => true
  | _ => false

def Task.isUpload : Task → Bool
  | .loadSettings _ _ | .reportUploading _ _ _ | .ingestArchive _ _ => true
  | _ => false

def Task.isUnsent : Task → Bool
  | .loadSettings _ _ | .reportUploading _ _ _ => true
  | _ => false

theorem countP_resumed {tasks : List Task} {index : Nat} {task : Task}
    (found : tasks[index]? = some task) (kind : Task → Bool) :
    tasks.countP kind = (tasks.eraseIdx index).countP kind + if kind task then 1 else 0 := by
  have ⟨below, isTask⟩ := List.getElem?_eq_some_iff.1 found
  have reordered := (getElem_cons_eraseIdx_perm below).countP_eq kind
  rw [← reordered, isTask, countP_cons]

theorem countP_addTask (browser : Browser) (task : Task) (kind : Task → Bool) :
    (browser.addTask task).tasks.countP kind
      = browser.tasks.countP kind + if kind task then 1 else 0 := by
  rw [Browser.addTask, countP_append, countP_singleton]

/-! ### Stages of a script -/

def Stage.isOver : Stage → Bool
  | .aborting _ | .erring _ _ | .finished => true
  | .reading | .transferring _ => false

def Script.atLastChunk (script : Script) : Bool :=
  match script.capture, script.stage with
  | some captured, .transferring sent => sent = chunkTotal captured.snapshotHtml
  | _, _ => false

def Script.isDone (script : Script) : Bool :=
  script.stage = .finished || (script.awaiting && script.atLastChunk)

def Owned (scripts : List Script) (captureId : String) : Prop :=
  ∃ script ∈ scripts, script.capture.map Captured.captureId = some captureId

/-! ### One attempt -/

def TaskOfAttempt (tabId : Nat) (scripts : List Script) : Task → Prop
  | .fetchTab tab attemptId | .executeScript tab attemptId => tab = tabId ∧ attemptId = 0
  | .acceptMetadata _ _ tab attemptId _ captureId _ =>
    tab = tabId ∧ attemptId = 0 ∧ Owned scripts captureId
  | .claimedError _ _ _ _ => False
  | .loadSettings tab upload | .reportUploading tab _ upload | .ingestArchive tab upload =>
    tab = tabId ∧ upload.attemptId = 0
  | .respond _ _ | .release _ => True

def Buffered (scripts : List Script) (captureId : String) (buffer : CaptureBuffer) : Prop :=
  ∃ script ∈ scripts, ∃ captured, script.capture = some captured
    ∧ captured.captureId = captureId ∧ buffer.total = chunkTotal captured.snapshotHtml
    ∧ ∀ sent, script.stage = .transferring sent →
      buffer.parts.length ≤ if script.awaiting then sent else sent - 1

structure Attempted (tabId : Nat) (browser : Browser) : Prop where
  status : ∃ status, browser.statuses tabId = some status ∧ status.attemptId = 0
  recoveries : browser.recoveries = []
  scripts : ∀ script ∈ browser.scripts, script.tabId = tabId
  single : browser.scripts.length + browser.tasks.countP Task.starts ≤ 1
  bound : ∀ captureId attempt, browser.captureAttempts captureId = some attempt →
    attempt.tabId = tabId ∧ attempt.attemptId = 0
  transfers : ∀ captureId transfer, browser.transfers captureId = some transfer →
    transfer.tabId = tabId ∧ Owned browser.scripts captureId
  tasks : ∀ task ∈ browser.tasks, TaskOfAttempt tabId browser.scripts task
  replies : browser.tasks.countP Task.answersMeta ≤ 1
  waiting : 0 < browser.tasks.countP Task.answersMeta → ∀ script ∈ browser.scripts,
    (script.stage = .transferring 0 ∧ script.awaiting = true) ∨ script.stage.isOver = true
  buffers : ∀ captureId buffer, browser.buffers captureId = some buffer →
    Buffered browser.scripts captureId buffer
  reading : ∀ script ∈ browser.scripts, script.stage = .reading → script.capture = none
  unread : browser.scripts = [] → browser.tasks.countP Task.answersMeta = 0

def phaseOf (browser : Browser) (tabId : Nat) : Option CapturePhase :=
  (browser.statuses tabId).map CaptureStatus.phase

structure Early (tabId : Nat) (browser : Browser) : Prop where
  phase : phaseOf browser tabId = some .capturing ∨ phaseOf browser tabId = some .processing
    ∨ phaseOf browser tabId = some .error
  noTask : browser.tasks.countP Task.isUpload = 0
  noUpload : browser.uploads = []

structure HandedOver (browser : Browser) : Prop where
  done : ∀ script ∈ browser.scripts, script.isDone = true
  started : browser.tasks.countP Task.starts = 0
  answered : browser.tasks.countP Task.answersMeta = 0
  transfers : ∀ captureId, browser.transfers captureId = none

structure Uploading (tabId : Nat) (browser : Browser) : Prop where
  handed : HandedOver browser
  phase : ∃ phase, phaseOf browser tabId = some phase ∧ phase.isTerminal = false
  oneTask : browser.tasks.countP Task.isUpload = 1
  once : browser.uploads.length + browser.tasks.countP Task.isUnsent ≤ 1

structure Over (browser : Browser) : Prop where
  handed : HandedOver browser
  noTask : browser.tasks.countP Task.isUpload = 0
  once : browser.uploads.length ≤ 1

def Situation (tabId : Nat) (browser : Browser) : Prop :=
  Early tabId browser ∨ Uploading tabId browser ∨ Over browser

def KeepsTerminal (tabId : Nat) (before after : Browser) : Prop :=
  ∀ phase, phaseOf before tabId = some phase → phase.isTerminal = true →
    phaseOf after tabId = some phase

structure Goes (tabId : Nat) (before after : Browser) : Prop where
  attempted : Attempted tabId after
  situation : Situation tabId after
  terminal : KeepsTerminal tabId before after

/-! ### Parts of a step -/

section Parts

variable {tabId : Nat} {browser before : Browser} {script : Script}

theorem owned_singleton {captureId : String} :
    Owned [script] captureId ↔ script.capture.map Captured.captureId = some captureId := by
  simp [Owned]

variable {task : Task}

theorem TaskOfAttempt.mono {scripts scripts' : List Script} (own : TaskOfAttempt tabId scripts task)
    (kept : ∀ captureId, Owned scripts captureId → Owned scripts' captureId) :
    TaskOfAttempt tabId scripts' task := by
  cases task with
  | acceptMetadata index stage tab attemptId updatedAt captureId metadata =>
    exact ⟨own.1, own.2.1, kept captureId own.2.2⟩
  | _ => exact own

variable {index : Nat} (attempted : Attempted tabId browser)

include attempted

theorem Attempted.only (found : browser.scripts[index]? = some script) :
    browser.scripts = [script] ∧ index = 0 ∧ browser.tasks.countP Task.starts = 0 := by
  have single := attempted.single
  have ⟨below, isScript⟩ := List.getElem?_eq_some_iff.1 found
  have one : browser.scripts.length = 1 := by omega
  have ⟨only, isOnly⟩ := length_eq_one_iff.1 one
  have isFirst : index = 0 := by omega
  subst isFirst
  rw [isOnly] at found
  refine ⟨?_, rfl, by omega⟩
  rw [isOnly, some.inj found]

theorem reportPhase_own (phase : CapturePhase) (detail : String) (extra : CaptureStatusExtra) :
    ∃ status, status.attemptId = 0 ∧ status.phase = phase
      ∧ reportPhase browser tabId 0 phase detail extra
        = (browser.setStatus tabId (some status), some status.updatedAt) := by
  have ⟨current, isCurrent, isAttempt⟩ := attempted.status
  refine ⟨reported browser.clock current phase detail extra, isAttempt, rfl, ?_⟩
  simp only [reportPhase, isCurrent, isAttempt, ne_eq, not_true, if_false]

theorem Attempted.setStatus {status : CaptureStatus} (own : status.attemptId = 0) :
    Attempted tabId (browser.setStatus tabId (some status)) :=
  { attempted with
    status := ⟨status, update_self _ _ _, own⟩ }

omit attempted

theorem phaseOf_setStatus (browser : Browser) (tabId : Nat) (status : CaptureStatus) :
    phaseOf (browser.setStatus tabId (some status)) tabId = some status.phase := by
  show (update browser.statuses tabId (some status) tabId).map _ = _
  rw [update_self]
  rfl

variable (attempted : Attempted tabId browser)

include attempted

theorem Attempted.addTask (own : TaskOfAttempt tabId browser.scripts task)
    (starts : task.starts = false) (answers : task.answersMeta = false) :
    Attempted tabId (browser.addTask task) := by
  have sameStarts := countP_addTask browser task Task.starts
  have sameAnswers := countP_addTask browser task Task.answersMeta
  rw [starts] at sameStarts
  rw [answers] at sameAnswers
  simp only [Bool.false_eq_true, if_false, Nat.add_zero] at sameStarts sameAnswers
  refine { attempted with single := ?_, tasks := ?_, replies := ?_, waiting := ?_, unread := ?_ }
  · rw [sameStarts]
    exact attempted.single
  · intro other member
    rcases mem_append.1 member with old | new
    · exact attempted.tasks other old
    · rw [mem_singleton.1 new]
      exact own
  · rw [sameAnswers]
    exact attempted.replies
  · rw [sameAnswers]
    exact attempted.waiting
  · rw [sameAnswers]
    exact attempted.unread

theorem Attempted.addReply (own : TaskOfAttempt tabId browser.scripts task)
    (starts : task.starts = false) (unanswered : browser.tasks.countP Task.answersMeta = 0)
    (injected : browser.scripts ≠ [])
    (awaited : ∀ script ∈ browser.scripts, script.stage = .transferring 0 ∧ script.awaiting = true)
    :
    Attempted tabId (browser.addTask task) := by
  have sameStarts := countP_addTask browser task Task.starts
  have added := countP_addTask browser task Task.answersMeta
  rw [starts] at sameStarts
  simp only [Bool.false_eq_true, if_false, Nat.add_zero] at sameStarts
  refine { attempted with single := ?_, tasks := ?_, replies := ?_, waiting := ?_, unread := ?_ }
  · rw [sameStarts]
    exact attempted.single
  · intro other member
    rcases mem_append.1 member with old | new
    · exact attempted.tasks other old
    · rw [mem_singleton.1 new]
      exact own
  · rw [added, unanswered]
    split_ifs <;> omega
  · intro _ script member
    exact .inl (awaited script member)
  · exact fun empty => absurd empty injected

theorem Attempted.setScript {moved : Script} (found : browser.scripts[index]? = some script)
    (sameTab : moved.tabId = script.tabId) (sameCapture : moved.capture = script.capture)
    (reading : moved.stage = .reading → moved.capture = none)
    (buffered : ∀ captured sent, script.capture = some captured →
      moved.stage = .transferring sent → ∃ sent', script.stage = .transferring sent'
        ∧ (if script.awaiting then sent' else sent' - 1)
          ≤ if moved.awaiting then sent else sent - 1)
    (waiting : 0 < browser.tasks.countP Task.answersMeta →
      (moved.stage = .transferring 0 ∧ moved.awaiting = true) ∨ moved.stage.isOver = true) :
    Attempted tabId (browser.setScript index moved)
      ∧ (browser.setScript index moved).scripts = [moved] := by
  have ⟨only, isFirst, noStart⟩ := attempted.only found
  have scripts : (browser.setScript index moved).scripts = [moved] := by
    show browser.scripts.set index moved = _
    rw [only, isFirst]
    rfl
  have owned : ∀ captureId, Owned browser.scripts captureId →
      Owned (browser.setScript index moved).scripts captureId := by
    intro captureId owns
    rw [only, owned_singleton] at owns
    rw [scripts, owned_singleton, sameCapture]
    exact owns
  refine ⟨?_, scripts⟩
  refine { attempted with
    scripts := ?_, single := ?_, transfers := ?_, tasks := ?_, waiting := ?_, buffers := ?_
    reading := ?_, unread := ?_ }
  · intro other member
    rw [scripts, mem_singleton] at member
    rw [member, sameTab]
    exact attempted.scripts script (mem_of_getElem? found)
  · rw [scripts]
    show 1 + browser.tasks.countP Task.starts ≤ 1
    omega
  · intro captureId transfer isTransfer
    exact (attempted.transfers captureId transfer isTransfer).imp_right (owned captureId)
  · intro task member
    exact (attempted.tasks task member).mono owned
  · intro pending other member
    rw [scripts, mem_singleton] at member
    rw [member]
    exact waiting pending
  · intro captureId buffer isBuffer
    have ⟨owner, isOwner, captured, isCaptured, isId, isTotal, bounded⟩ :=
      attempted.buffers captureId buffer isBuffer
    rw [only, mem_singleton] at isOwner
    rw [isOwner] at isCaptured bounded
    refine ⟨moved, by rw [scripts]; exact mem_singleton_self _, captured,
      sameCapture.trans isCaptured, isId, isTotal, ?_⟩
    intro sent isSent
    have ⟨sent', wasSent, fewer⟩ := buffered captured sent isCaptured isSent
    exact Nat.le_trans (bounded sent' wasSent) fewer
  · intro other member
    rw [scripts, mem_singleton] at member
    rw [member]
    exact reading
  · rw [scripts]
    exact nofun

omit attempted

variable {after : Browser}

theorem Early.congr (early : Early tabId browser)
    (statuses : phaseOf after tabId = phaseOf browser tabId)
    (tasks : after.tasks.countP Task.isUpload = browser.tasks.countP Task.isUpload)
    (uploads : after.uploads = browser.uploads) : Early tabId after := by
  refine ⟨?_, ?_, ?_⟩
  · rw [statuses]
    exact early.phase
  · rw [tasks]
    exact early.noTask
  · rw [uploads]
    exact early.noUpload

theorem bind_attempt (attempted : Attempted tabId browser) (captureId : String) : ∃ bindings,
      (bindCaptureToCurrentAttempt browser tabId captureId).1
        = { browser with captureAttempts := bindings }
      ∧ Attempted tabId { browser with captureAttempts := bindings }
      ∧ ∀ attempt, (bindCaptureToCurrentAttempt browser tabId captureId).2 = some attempt →
        attempt.attemptId = 0
          ∧ ∃ phase, phaseOf browser tabId = some phase ∧ phase.isTerminal = false := by
  have ⟨current, isCurrent, isAttempt⟩ := attempted.status
  unfold bindCaptureToCurrentAttempt
  cases isBound : browser.captureAttempts captureId with
  | some existing =>
    refine ⟨browser.captureAttempts, rfl, attempted, ?_⟩
    simp only [isCurrent, any_some]
    intro attempt isSome
    split_ifs at isSome with meets
    rw [← some.inj isSome]
    refine ⟨(attempted.bound captureId existing isBound).2, current.phase, ?_, ?_⟩
    · rw [phaseOf, isCurrent]
      rfl
    · simpa using (Bool.and_eq_true_iff.1 meets.2).2
  | none =>
    simp only [isCurrent]
    split_ifs with terminal
    · exact ⟨browser.captureAttempts, rfl, attempted, nofun⟩
    · refine ⟨_, rfl, { attempted with bound := ?_ }, ?_⟩
      · intro other attempt isAttemptOf
        by_cases same : other = captureId
        · rw [same] at isAttemptOf
          simp only [update_self, some.injEq] at isAttemptOf
          rw [← isAttemptOf]
          exact ⟨rfl, isAttempt⟩
        · simp only [update_of_ne same] at isAttemptOf
          exact attempted.bound other attempt isAttemptOf
      · intro attempt isSome
        rw [← some.inj isSome]
        refine ⟨isAttempt, current.phase, ?_, by simpa using terminal⟩
        rw [phaseOf, isCurrent]
        rfl

theorem respond_answersMeta {stage : Stage} (later : stage ≠ .transferring 0) :
    (Task.respond index stage).answersMeta = false := by
  unfold Task.answersMeta
  split
  · rename_i isAccept
    exact nomatch isAccept
  · rename_i isRespond
    exact absurd (Task.respond.inj isRespond).2 later
  · rfl

theorem Attempted.answer (attempted : Attempted tabId browser) {sender : Sender}
    (later : sender.stage ≠ .transferring 0) : Attempted tabId (browser.answer sender) := by
  have own : TaskOfAttempt tabId browser.scripts (.respond sender.index sender.stage) := trivial
  exact attempted.addTask own rfl (respond_answersMeta later)

theorem countP_answer (browser : Browser) (sender : Sender) :
    (browser.answer sender).tasks.countP Task.isUpload = browser.tasks.countP Task.isUpload
      ∧ (browser.answer sender).tasks.countP Task.isUnsent = browser.tasks.countP Task.isUnsent
      ∧ (browser.answer sender).tasks.countP Task.starts = browser.tasks.countP Task.starts := by
  refine ⟨?_, ?_, ?_⟩
  all_goals
    rw [Browser.answer, countP_addTask]
    rfl

theorem unsent_le (tasks : List Task) :
    tasks.countP Task.isUnsent ≤ tasks.countP Task.isUpload := by
  apply countP_mono_left
  intro task _ isUnsent
  cases task with
  | loadSettings | reportUploading => rfl
  | _ => exact nomatch isUnsent

theorem unsent_of_noUpload {tasks : List Task} (noTask : tasks.countP Task.isUpload = 0) :
    tasks.countP Task.isUnsent = 0 := by
  have fewer := unsent_le tasks
  omega

theorem HandedOver.addTask (handed : HandedOver browser) (starts : task.starts = false)
    (answers : task.answersMeta = false) :
    HandedOver (browser.addTask task) := by
  refine ⟨handed.done, ?_, ?_, handed.transfers⟩
  · rw [countP_addTask, starts, handed.started]
    rfl
  · rw [countP_addTask, answers, handed.answered]
    rfl

theorem HandedOver.answer (handed : HandedOver browser) {sender : Sender}
    (later : sender.stage ≠ .transferring 0) : HandedOver (browser.answer sender) :=
  handed.addTask rfl (respond_answersMeta later)

theorem Early.answer (early : Early tabId browser) (sender : Sender) :
    Early tabId (browser.answer sender) :=
  early.congr rfl (countP_answer browser sender).1 rfl

theorem Early.report (early : Early tabId browser) (attempted : Attempted tabId browser)
    {phase : CapturePhase} (detail : String) (extra : CaptureStatusExtra)
    (isEarly : phase = .capturing ∨ phase = .processing ∨ phase = .error) :
    Attempted tabId (reportPhase browser tabId 0 phase detail extra).1
      ∧ Early tabId (reportPhase browser tabId 0 phase detail extra).1
      ∧ phaseOf (reportPhase browser tabId 0 phase detail extra).1 tabId = some phase := by
  have ⟨status, own, isPhase, is⟩ := reportPhase_own attempted phase detail extra
  rw [is]
  have reportedPhase := phaseOf_setStatus browser tabId status
  rw [isPhase] at reportedPhase
  refine ⟨attempted.setStatus own, ⟨?_, early.noTask, early.noUpload⟩, reportedPhase⟩
  rw [reportedPhase]
  rcases isEarly with rfl | rfl | rfl
  · exact .inl rfl
  · exact .inr (.inl rfl)
  · exact .inr (.inr rfl)

theorem keepsTerminal_of_running
    (running : ∃ phase, phaseOf browser tabId = some phase ∧ phase.isTerminal = false) :
    KeepsTerminal tabId browser after := by
  intro phase isPhase terminal
  have ⟨current, isCurrent, isRunning⟩ := running
  rw [isCurrent] at isPhase
  rw [← some.inj isPhase, isRunning] at terminal
  exact nomatch terminal

theorem Early.keepsTerminal (early : Early tabId browser)
    (isError : phaseOf after tabId = some .error) : KeepsTerminal tabId browser after := by
  intro phase isPhase terminal
  rcases early.phase with is | is | is
  · rw [is] at isPhase
    rw [← some.inj isPhase] at terminal
    exact nomatch terminal
  · rw [is] at isPhase
    rw [← some.inj isPhase] at terminal
    exact nomatch terminal
  · rw [isError, ← isPhase, is]

theorem Attempted.cleanup (attempted : Attempted tabId browser) (captureId : String) :
    Attempted tabId (Capture.cleanup browser captureId) := by
  refine { attempted with transfers := ?_, buffers := ?_ }
  · intro other transfer isTransfer
    by_cases same : other = captureId
    · simp only [Capture.cleanup, same, update_self] at isTransfer
      exact nomatch isTransfer
    · simp only [Capture.cleanup, update_of_ne same] at isTransfer
      exact attempted.transfers other transfer isTransfer
  · intro other buffer isBuffer
    by_cases same : other = captureId
    · simp only [Capture.cleanup, same, update_self] at isBuffer
      exact nomatch isBuffer
    · simp only [Capture.cleanup, update_of_ne same] at isBuffer
      exact attempted.buffers other buffer isBuffer

theorem Attempted.resetTimer (attempted : Attempted tabId browser) {captureId : String}
    {metadata : Option CaptureMetadata} (owned : Owned browser.scripts captureId) :
    Attempted tabId (Capture.resetTimer browser captureId tabId metadata) := by
  refine { attempted with transfers := ?_ }
  intro other transfer isTransfer
  by_cases same : other = captureId
  · rw [same] at isTransfer
    simp only [Capture.resetTimer, update_self, some.injEq] at isTransfer
    rw [← isTransfer, same]
    exact ⟨rfl, owned⟩
  · simp only [Capture.resetTimer, update_of_ne same] at isTransfer
    exact attempted.transfers other transfer isTransfer

end Parts

/-! ### Messages before the snapshot is complete -/

section Messages

variable {tabId : Nat} {browser : Browser} {sender : Sender} (attempted : Attempted tabId browser)

include attempted

theorem goes_handleMeta (early : Early tabId browser) {captureId : String}
    {metadata : CaptureMetadata} (isTab : sender.tabId = tabId)
    (unanswered : browser.tasks.countP Task.answersMeta = 0) (injected : browser.scripts ≠ [])
    (awaited : ∀ script ∈ browser.scripts, script.stage = .transferring 0 ∧ script.awaiting = true)
    (owned : Owned browser.scripts captureId) :
    Goes tabId browser (handleMeta browser sender captureId metadata) := by
  have ⟨bindings, isFirst, bound, running⟩ := bind_attempt attempted captureId
  unfold handleMeta
  rw [isTab]
  cases isBind : bindCaptureToCurrentAttempt browser tabId captureId with
  | mk after attempt =>
    rw [isBind] at isFirst running
    simp only at isFirst running
    subst isFirst
    have sameEarly : Early tabId { browser with captureAttempts := bindings } :=
      early.congr rfl rfl rfl
    have replyOwn : TaskOfAttempt tabId browser.scripts
      (.respond sender.index sender.stage) := trivial
    cases attempt with
    | none =>
      exact ⟨bound.addReply replyOwn rfl unanswered injected awaited, .inl (sameEarly.answer sender),
        fun phase isPhase _ => isPhase⟩
    | some captureAttempt =>
      have ⟨isAttempt, isRunning⟩ := running captureAttempt rfl
      simp only [isAttempt]
      have ⟨status, own, isPhase, isReport⟩ :=
        reportPhase_own bound .processing (describePhase .processing) {}
      have early' := (sameEarly.report bound (describePhase .processing) {} (.inr (.inl rfl))).2.1
      rw [isReport] at early' ⊢
      have acceptOwn : TaskOfAttempt tabId browser.scripts
          (.acceptMetadata sender.index sender.stage tabId 0 status.updatedAt captureId metadata) :=
        ⟨rfl, rfl, owned⟩
      refine ⟨(bound.setStatus own).addReply acceptOwn rfl unanswered injected awaited, .inl ?_,
        keepsTerminal_of_running isRunning⟩
      show Early tabId (Browser.addTask _ _)
      refine Early.congr early' rfl ?_ rfl
      rw [countP_addTask]
      rfl

theorem goes_handleAbort (early : Early tabId browser) {captureId error : String}
    (isTab : sender.tabId = tabId) (later : sender.stage ≠ .transferring 0) :
    Goes tabId browser (handleAbort browser sender captureId error) := by
  have ⟨bindings, isFirst, bound, running⟩ := bind_attempt attempted captureId
  unfold handleAbort
  rw [isTab]
  cases isBind : bindCaptureToCurrentAttempt browser tabId captureId with
  | mk after attempt =>
    rw [isBind] at isFirst running
    simp only at isFirst running
    subst isFirst
    have clean := bound.cleanup captureId
    have cleanEarly : Early tabId
        (cleanup { browser with captureAttempts := bindings } captureId) :=
      early.congr rfl rfl rfl
    cases attempt with
    | none =>
      exact ⟨clean.answer later, .inl (cleanEarly.answer sender), fun phase isPhase _ => isPhase⟩
    | some captureAttempt =>
      have ⟨isAttempt, isRunning⟩ := running captureAttempt rfl
      simp only [isAttempt]
      have marked : Attempted tabId
          { cleanup { browser with captureAttempts := bindings } captureId with
            recentAborts := update browser.recentAborts tabId
              (some ⟨error, browser.clock + abortErrorDeduplicationMs⟩) } :=
        { clean with }
      have markedEarly : Early tabId
          { cleanup { browser with captureAttempts := bindings } captureId with
            recentAborts := update browser.recentAborts tabId
              (some ⟨error, browser.clock + abortErrorDeduplicationMs⟩) } :=
        early.congr rfl rfl rfl
      have reports := markedEarly.report marked
        ("Snapshot transfer " ++ captureId ++ ": " ++ error) {} (.inr (.inr rfl))
      exact ⟨reports.1.answer later, .inl (reports.2.1.answer sender),
        keepsTerminal_of_running isRunning⟩

theorem goes_handleError (early : Early tabId browser) {error : String}
    (isTab : sender.tabId = tabId) (later : sender.stage ≠ .transferring 0) :
    Goes tabId browser (handleError browser sender error) := by
  have ⟨current, isCurrent, isAttempt⟩ := attempted.status
  have unconditional : ∀ {markers : Nat → Option RecentAbort}, Goes tabId browser
        (reportUnconditionalError { browser with recentAborts := markers } sender error) := by
    intro markers
    have marked : Attempted tabId { browser with recentAborts := markers } := { attempted with }
    have markedEarly : Early tabId { browser with recentAborts := markers } :=
      early.congr rfl rfl rfl
    unfold reportUnconditionalError
    simp only [isTab, isCurrent]
    split_ifs with known
    · exact ⟨marked.answer later, .inl (markedEarly.answer sender), fun phase isPhase _ => isPhase⟩
    · rw [isAttempt]
      have reports := markedEarly.report marked error {} (.inr (.inr rfl))
      exact ⟨reports.1.answer later, .inl (reports.2.1.answer sender),
        early.keepsTerminal reports.2.2⟩
  unfold handleError consumeMatchingAbortError
  cases browser.recentAborts sender.tabId with
  | none => exact unconditional
  | some marker =>
    simp only
    split_ifs
    · exact unconditional
    · exact unconditional
    · have marked : Attempted tabId { browser with
            recentAborts := update browser.recentAborts sender.tabId none } :=
        { attempted with }
      have markedEarly : Early tabId { browser with
            recentAborts := update browser.recentAborts sender.tabId none } :=
        early.congr rfl rfl rfl
      exact ⟨marked.answer later, .inl (markedEarly.answer sender), fun phase isPhase _ => isPhase⟩

omit attempted

variable {captured : Captured} {index : Nat}

theorem Attempted.extend (attempted : Attempted tabId browser) {script : Script}
    (only : browser.scripts = [script]) (isCaptured : script.capture = some captured)
    (isStage : script.stage = .transferring (index + 1)) (awaiting : script.awaiting = true)
    (short : ∀ buffer, browser.buffers captured.captureId = some buffer →
      buffer.parts.length ≤ index) :
    Attempted tabId { browser with
        buffers := update browser.buffers captured.captureId
          (some (extended (browser.buffers captured.captureId)
            (chunkAt captured.captureId captured.snapshotHtml index))) } := by
  refine { attempted with buffers := ?_ }
  intro captureId buffer isBuffer
  by_cases same : captureId = captured.captureId
  · rw [same] at isBuffer
    simp only [update_self, some.injEq] at isBuffer
    rw [← isBuffer, only]
    refine ⟨script, mem_singleton_self _, captured, isCaptured, same.symm, rfl, ?_⟩
    intro sent isSent
    rw [isStage, Stage.transferring.injEq] at isSent
    rw [awaiting, if_pos rfl, ← isSent]
    show (((browser.buffers captured.captureId).map CaptureBuffer.parts).getD [] ++ [_]).length ≤ _
    rw [length_append, length_singleton]
    cases isOld : browser.buffers captured.captureId with
    | none => simp
    | some old =>
      have few := short old isOld
      simp only [map_some, getD_some]
      omega
  · simp only [update_of_ne same] at isBuffer
    exact attempted.buffers captureId buffer isBuffer

theorem last_of_full {existing : Option CaptureBuffer}
    (below : index < chunkTotal captured.snapshotHtml)
    (short : ∀ buffer, existing = some buffer → buffer.parts.length ≤ index)
    (full : (extended existing (chunkAt captured.captureId captured.snapshotHtml index)).total
      ≤ (extended existing (chunkAt captured.captureId captured.snapshotHtml index)).parts.length) :
    index + 1 = chunkTotal captured.snapshotHtml := by
  have isFull : chunkTotal captured.snapshotHtml
      ≤ ((existing.map CaptureBuffer.parts).getD [] ++ [(index, _)]).length := full
  rw [length_append, length_singleton] at isFull
  cases existing with
  | none =>
    simp only [map_none, getD_none, length_nil] at isFull
    omega
  | some old =>
    have few := short old rfl
    simp only [map_some, getD_some] at isFull
    omega

theorem goes_completeCapture (attempted : Attempted tabId browser) (early : Early tabId browser)
    (handed : HandedOver browser) {captureAttempt : CaptureAttempt} {tab : Nat}
    (isTab : tab = tabId) (isAttempt : captureAttempt.attemptId = 0)
    (running : ∃ phase, phaseOf browser tabId = some phase ∧ phase.isTerminal = false)
    (later : sender.stage ≠ .transferring 0) (metadata : Option CaptureMetadata)
    (snapshotHtml : Text) :
    Attempted tabId (completeCapture browser sender captureAttempt tab metadata snapshotHtml)
      ∧ Situation tabId
        (completeCapture browser sender captureAttempt tab metadata snapshotHtml) := by
  subst isTab
  unfold completeCapture
  cases metadata with
  | none =>
    simp only [isAttempt]
    have reports := early.report attempted "Capture metadata was lost in transit." {}
      (.inr (.inr rfl))
    exact ⟨reports.1.answer later, .inl (reports.2.1.answer sender)⟩
  | some metadata =>
    simp only [isAttempt]
    split_ifs with archiving
    · have ⟨status, own, isPhase, isReport⟩ := reportPhase_own attempted .duplicate
        (metadata.title ++ " is already being archived.") {}
      rw [isReport]
      refine ⟨(attempted.setStatus own).answer later, .inr (.inr ⟨?_, ?_, ?_⟩)⟩
      · have shown : HandedOver (browser.setStatus tab (some status)) := { handed with }
        exact shown.answer later
      · rw [(countP_answer _ sender).1]
        exact early.noTask
      · show browser.uploads.length ≤ 1
        rw [early.noUpload]
        exact Nat.zero_le 1
    · have own : TaskOfAttempt tab browser.scripts (.loadSettings tab
            ⟨captureAttempt.attemptId, captureAttempt.additionalTags, metadata, snapshotHtml⟩) :=
        ⟨rfl, isAttempt⟩
      rw [isAttempt] at own
      have inFlight : Attempted tab
          { browser with inFlight := browser.inFlight ++ [metadata.url] } := { attempted with }
      refine ⟨(inFlight.addTask own rfl rfl).answer later, .inr (.inl ⟨?_, running, ?_, ?_⟩)⟩
      · refine HandedOver.answer (HandedOver.addTask ?_ rfl rfl) later
        exact { handed with }
      · rw [(countP_answer _ sender).1, countP_addTask]
        show browser.tasks.countP Task.isUpload + 1 = 1
        rw [early.noTask]
      · rw [(countP_answer _ sender).2.1, countP_addTask]
        show browser.uploads.length + (browser.tasks.countP Task.isUnsent + 1) ≤ 1
        rw [early.noUpload, unsent_of_noUpload early.noTask]
        rfl

theorem goes_handleChunk (attempted : Attempted tabId browser) (early : Early tabId browser)
    {script : Script} (only : browser.scripts = [script])
    (isCaptured : script.capture = some captured)
    (isStage : script.stage = .transferring (index + 1)) (awaiting : script.awaiting = true)
    (below : index < chunkTotal captured.snapshotHtml)
    (short : ∀ buffer, browser.buffers captured.captureId = some buffer →
      buffer.parts.length ≤ index) (unstarted : browser.tasks.countP Task.starts = 0)
    (unanswered : browser.tasks.countP Task.answersMeta = 0) (isTab : sender.tabId = tabId)
    (later : sender.stage ≠ .transferring 0) :
    Goes tabId browser
      (handleChunk browser sender (chunkAt captured.captureId captured.snapshotHtml index)) := by
  have owned : Owned browser.scripts captured.captureId := by
    rw [only, owned_singleton, isCaptured]
    rfl
  have ⟨bindings, isFirst, bound, running⟩ := bind_attempt attempted captured.captureId
  have sameEarly : Early tabId { browser with captureAttempts := bindings } :=
    early.congr rfl rfl rfl
  have sameId : (chunkAt captured.captureId captured.snapshotHtml index).captureId
    = captured.captureId := rfl
  unfold handleChunk
  rw [isTab, sameId]
  cases isBind : bindCaptureToCurrentAttempt browser tabId captured.captureId with
  | mk after attempt =>
    rw [isBind] at isFirst running
    simp only at isFirst running
    subst isFirst
    cases attempt with
    | none =>
      exact ⟨bound.answer later, .inl (sameEarly.answer sender), fun phase isPhase _ => isPhase⟩
    | some captureAttempt =>
      have ⟨isAttempt, isRunning⟩ := running captureAttempt rfl
      have keeps : ∀ {next : Browser}, KeepsTerminal tabId browser next :=
        keepsTerminal_of_running isRunning
      -- a chunk that leaves the snapshot incomplete
      have goesOn : ∀ {buffers : Buffers},
          Attempted tabId { browser with captureAttempts := bindings, buffers := buffers } →
          Goes tabId browser ((reportPhase
              (resetTimer { browser with captureAttempts := bindings, buffers := buffers }
                captured.captureId tabId (browser.metadataOf captured.captureId))
              tabId 0 .processing (describePhase .processing)
              { chunks := some (index + 1, chunkTotal captured.snapshotHtml) }).1.answer
              sender) := by
        intro buffers holds
        have timed : Attempted tabId
            (resetTimer { browser with captureAttempts := bindings, buffers := buffers }
              captured.captureId tabId (browser.metadataOf captured.captureId)) :=
          holds.resetTimer owned
        have timedEarly : Early tabId
            (resetTimer { browser with captureAttempts := bindings, buffers := buffers }
              captured.captureId tabId (browser.metadataOf captured.captureId)) :=
          early.congr rfl rfl rfl
        have reports := timedEarly.report timed (describePhase .processing)
          { chunks := some (index + 1, chunkTotal captured.snapshotHtml) } (.inr (.inl rfl))
        exact ⟨reports.1.answer later, .inl (reports.2.1.answer sender), keeps⟩
      have clean := bound.cleanup captured.captureId
      have cleanEarly : Early tabId
          (cleanup { browser with captureAttempts := bindings } captured.captureId) :=
        early.congr rfl rfl rfl
      simp only [isAttempt]
      rcases accept_cases browser.buffers
        (chunkAt captured.captureId captured.snapshotHtml index) with
        ⟨reason, is⟩ | is | ⟨_, is | ⟨full, is⟩⟩
      · rw [is]
        have reports := cleanEarly.report clean
          ("Malformed snapshot transfer: Error: " ++ reason) {} (.inr (.inr rfl))
        exact ⟨reports.1.answer later, .inl (reports.2.1.answer sender), keeps⟩
      · rw [is]
        exact goesOn bound
      · rw [is]
        apply goesOn
        exact bound.extend only isCaptured isStage awaiting short
      · rw [is]
        have last := last_of_full below short full
        have sameTab : ((browser.transfers captured.captureId).map PendingTransfer.tabId).getD tabId
              = tabId := by
          cases isTransfer : browser.transfers captured.captureId with
          | none => rfl
          | some transfer => exact (attempted.transfers _ transfer isTransfer).1
        have handed : HandedOver
            (cleanup { browser with captureAttempts := bindings } captured.captureId) := by
          refine ⟨?_, unstarted, unanswered, ?_⟩
          · intro other member
            have isOther : other = script := by
              have inScripts : other ∈ browser.scripts := member
              rw [only] at inScripts
              exact mem_singleton.1 inScripts
            rw [isOther]
            simp [Script.isDone, Script.atLastChunk, isCaptured, isStage, awaiting, last]
          · intro captureId
            show update browser.transfers captured.captureId none captureId = none
            by_cases same : captureId = captured.captureId
            · rw [same, update_self]
            · rw [update_of_ne same]
              cases isTransfer : browser.transfers captureId with
              | none => rfl
              | some transfer =>
                have owns := (attempted.transfers captureId transfer isTransfer).2
                rw [only, owned_singleton, isCaptured] at owns
                exact absurd (some.inj owns).symm same
        have completed := goes_completeCapture clean cleanEarly handed sameTab isAttempt
          isRunning later (browser.metadataOf captured.captureId)
          (extended (browser.buffers captured.captureId)
            (chunkAt captured.captureId captured.snapshotHtml index)).join
        exact ⟨completed.1, completed.2, keeps⟩

end Messages

theorem message_cases {script : Script} {message : Message} (sends : script.message = some message) :
    (∃ captured, script.capture = some captured ∧ script.stage = .transferring 0
        ∧ message = .captureMeta captured.captureId captured.metadata)
      ∨ (∃ captured index, script.capture = some captured
        ∧ script.stage = .transferring (index + 1) ∧ index < chunkTotal captured.snapshotHtml
        ∧ message = .captureChunk (chunkAt captured.captureId captured.snapshotHtml index))
      ∨ (∃ captured error, script.capture = some captured ∧ script.stage = .aborting error
        ∧ message = .captureAbort captured.captureId error)
      ∨ ∃ error last, script.stage = .erring error last ∧ message = .captureError error := by
  unfold Script.message at sends
  split at sends
  · rename_i captured isStage isCaptured
    exact .inl ⟨captured, isCaptured, isStage, (some.inj sends).symm⟩
  · rename_i index captured isStage isCaptured
    have ⟨chunk, isChunk, isMessage⟩ := map_eq_some_iff.1 sends
    rw [splitIntoChunks, getElem?_map] at isChunk
    have ⟨place, isPlace, isAt⟩ := map_eq_some_iff.1 isChunk
    have ⟨below, isIndex⟩ := List.getElem?_eq_some_iff.1 isPlace
    rw [length_range] at below
    rw [getElem_range] at isIndex
    refine .inr (.inl ⟨captured, index, isCaptured, isStage, below, ?_⟩)
    rw [← isMessage, ← isAt, isIndex]
  · rename_i error captured isStage isCaptured
    exact .inr (.inr (.inl ⟨captured, error, isCaptured, isStage, (some.inj sends).symm⟩))
  · rename_i error last isStage
    exact .inr (.inr (.inr ⟨error, last, isStage, (some.inj sends).symm⟩))
  · exact nomatch sends

end Clepsydra.Capture
