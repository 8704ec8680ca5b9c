import Clepsydra.Capture.Attended

/-!
Owns: the steps of the browser and of its pages that go away, and how an attempt can end.

Proves: an unfinished attempt has something outstanding that can end it, as long as a script ends
only after its capture is taken over, and every message meets its own attempt.
-/

namespace Clepsydra.Capture

open Library Library.Transitions List Function Option

/-! ### Scripts that go on -/

section Scripts

variable {tabId index : Nat} {browser : Browser} {destroyed : List Nat} {script moved : Script}

theorem Attends.setScript (attends : Attends tabId ⟨browser, destroyed⟩)
    (onTab : OnTab tabId destroyed browser) (found : browser.scripts[index]? = some script)
    (sameAttempt : moved.attemptId = script.attemptId)
    (keeps : (script.Promises → moved.Promises) ∨ relieved browser script = true) :
    Attends tabId ⟨browser.setScript index moved, destroyed⟩ := by
  have isTab := onTab.scripts script (mem_of_getElem? found)
  have below := (List.getElem?_eq_some_iff.1 found).1
  intro status isStatus running
  by_cases isRelieved : relieved browser script = true ∧ status.attemptId = script.attemptId
  · have kept := Expected.of_relieved isTab isRelieved.1 isStatus running isRelieved.2
    exact .inr (.inr kept)
  · apply (attends status isStatus running).mono
    · exact fun _ member _ => member
    · intro place other isOther live isAttempt promising
      by_cases same : index = place
      · rw [← same, found] at isOther
        rw [← some.inj isOther] at isAttempt promising
        rw [← same] at live ⊢
        refine ⟨moved, getElem?_set_self below, live, sameAttempt.trans isAttempt, ?_⟩
        rcases keeps with stays | relieves
        · exact stays promising
        · exact absurd ⟨relieves, isAttempt.symm⟩ isRelieved
      · refine ⟨other, ?_, live, isAttempt, promising⟩
        show (browser.scripts.set index moved)[place]? = some other
        rw [getElem?_set_ne same]
        exact isOther
    · exact fun _ armed => armed
    · exact fun recovers => recovers

theorem promises_advanced (awaits : script.awaiting = true) (promising : script.Promises) :
    ({ script with awaiting := false, stage := script.advanced } : Script).Promises := by
  rw [Script.Promises] at promising ⊢
  cases isStage : script.stage with
  | reading | erring =>
    simp only [isStage, awaits] at promising
    cases promising
  | transferring sent =>
    simp only [isStage] at promising
    obtain ⟨captured, isCaptured, more⟩ := promising
    have isAdvanced : script.advanced = .transferring (sent + 1) := by
      unfold Script.advanced
      rw [isStage, isCaptured]
      exact if_pos (more awaits)
    simp only [isAdvanced]
    exact ⟨captured, isCaptured, fun isAwaiting => by cases isAwaiting⟩
  | aborting error =>
    simp only [isStage, awaits] at promising
    cases promising.1
  | finished =>
    simp only [isStage] at promising

theorem promises_failed {error : String} (again : ∀ cause, script.stage ≠ .erring cause true)
    (promising : script.Promises) :
    ({ script with awaiting := false, stage := script.failed error } : Script).Promises := by
  rw [Script.Promises] at promising ⊢
  cases isStage : script.stage with
  | reading | aborting => simp [Script.failed, isStage]
  | transferring sent =>
    simp only [isStage] at promising
    obtain ⟨captured, isCaptured, _⟩ := promising
    simp only [Script.failed, isStage]
    exact ⟨trivial, captured, isCaptured⟩
  | erring cause last =>
    cases last with
    | true => exact absurd isStage (again cause)
    | false => simp [Script.failed, isStage]
  | finished =>
    simp only [isStage] at promising

theorem Attends.destroy {scene : Scene} (attends : Attends tabId scene)
    (onTab : OnTab tabId scene.destroyed scene.browser)
    (ended : ∀ script, scene.browser.scripts[index]? = some script →
      script.stage = .finished ∨ relieved scene.browser script = true) :
    Attends tabId { scene with destroyed := index :: scene.destroyed } := by
  intro status isStatus running
  by_cases isRelieved : ∃ script, scene.browser.scripts[index]? = some script
      ∧ relieved scene.browser script = true ∧ status.attemptId = script.attemptId
  · have ⟨script, found, relieves, isOwn⟩ := isRelieved
    have isTab := onTab.scripts script (mem_of_getElem? found)
    exact .inr (.inr (Expected.of_relieved isTab relieves isStatus running isOwn))
  · apply (attends status isStatus running).mono
    · exact fun _ member _ => member
    · intro place script isScript live isAttempt promising
      refine ⟨script, isScript, ?_, isAttempt, promising⟩
      intro member
      rcases mem_cons.1 member with same | old
      · rw [same] at isScript
        rcases ended script isScript with isFinished | relieves
        · rw [Script.Promises, isFinished] at promising
          exact promising
        · exact isRelieved ⟨script, isScript, relieves, isAttempt.symm⟩
      · exact live old
    · exact fun _ armed => armed
    · exact fun recovers => recovers

theorem attends_respond (attends : Attends tabId ⟨browser, destroyed⟩)
    (onTab : OnTab tabId destroyed browser) (stage : Stage) :
    OnTab tabId destroyed (respond browser index stage)
      ∧ Attends tabId ⟨respond browser index stage, destroyed⟩ := by
  unfold respond
  cases found : browser.scripts[index]? with
  | none => exact ⟨onTab, attends⟩
  | some script =>
    simp only
    split_ifs with waits
    · have isTab := onTab.scripts script (mem_of_getElem? found)
      refine ⟨onTab.setScript isTab, attends.setScript onTab found (by rfl) (.inl ?_)⟩
      exact promises_advanced waits.1
    · exact ⟨onTab, attends⟩

end Scripts

/-! ### Tasks -/

section Tasks

variable {tabId index : Nat} {browser next : Browser} {destroyed : List Nat} {task : Task}

theorem OnTab.resumed (onTab : OnTab tabId destroyed browser) :
    OnTab tabId destroyed { browser with tasks := browser.tasks.eraseIdx index } :=
  { onTab with tasks := fun other member => onTab.tasks other (mem_of_mem_eraseIdx member) }

theorem Expected.resumed {status : CaptureStatus}
    (expected : Expected ⟨browser, destroyed⟩ tabId status)
    (found : browser.tasks[index]? = some task)
    (useless : task.startsFor tabId status.attemptId = false
      ∧ task.uploadsFor tabId status = false) :
    Expected ⟨{ browser with tasks := browser.tasks.eraseIdx index }, destroyed⟩ tabId status := by
  apply expected.mono
  · intro other member attendsTo
    have different : other ≠ task := by
      intro same
      rw [same, useless.1, useless.2] at attendsTo
      exact attendsTo.elim nofun nofun
    have ⟨below, isTask⟩ := List.getElem?_eq_some_iff.1 found
    have reordered := getElem_cons_eraseIdx_perm below
    rw [isTask] at reordered
    exact mem_of_ne_of_mem different (reordered.mem_iff.2 member)
  · exact fun place script isScript live isAttempt promising =>
      ⟨script, isScript, live, isAttempt, promising⟩
  · exact fun _ armed => armed
  · exact fun recovers => recovers

def Task.attempt : Task → Option Nat
  | .fetchTab _ attemptId | .executeScript _ attemptId => some attemptId
  | .loadSettings _ upload | .reportUploading _ _ upload | .ingestArchive _ upload =>
    some upload.attemptId
  | .acceptMetadata _ _ _ _ _ _ _ | .claimedError _ _ _ _ | .respond _ _ | .release _ => none

theorem useless_of_attempt {status : CaptureStatus} (other : task.attempt ≠ some status.attemptId) :
    task.startsFor tabId status.attemptId = false ∧ task.uploadsFor tabId status = false := by
  cases task <;> simp_all [Task.attempt, Task.startsFor, Task.uploadsFor]

theorem Attends.resumed (attends : Attends tabId ⟨browser, destroyed⟩)
    (found : browser.tasks[index]? = some task)
    (useless : ∀ status, browser.statuses tabId = some status →
      task.startsFor tabId status.attemptId = false ∧ task.uploadsFor tabId status = false) :
    Attends tabId ⟨{ browser with tasks := browser.tasks.eraseIdx index }, destroyed⟩ :=
  fun status isStatus running =>
    (attends status isStatus running).resumed found (useless status isStatus)

theorem Attends.resumedOthers {attemptId : Nat} (attends : Attends tabId ⟨browser, destroyed⟩)
    (found : browser.tasks[index]? = some task) (isAttempt : task.attempt = some attemptId) :
    AttendsOthers tabId attemptId
      ⟨{ browser with tasks := browser.tasks.eraseIdx index }, destroyed⟩ := by
  intro status isStatus running different
  apply (attends status isStatus running).resumed found
  apply useless_of_attempt
  rw [isAttempt]
  exact fun same => different (some.inj same).symm

theorem reportPhase_cases (browser : Browser) (tabId attemptId : Nat) (phase : CapturePhase)
    (detail : String) (extra : CaptureStatusExtra) :
    (reportPhase browser tabId attemptId phase detail extra = (browser, none)
        ∧ ∀ status, browser.statuses tabId = some status → status.attemptId ≠ attemptId)
      ∨ ∃ status : CaptureStatus, status.attemptId = attemptId
        ∧ reportPhase browser tabId attemptId phase detail extra
          = (browser.setStatus tabId (some status), some status.updatedAt) := by
  unfold reportPhase
  cases found : browser.statuses tabId with
  | none => exact .inl ⟨rfl, nofun⟩
  | some current =>
    simp only
    split_ifs with foreign
    · refine .inl ⟨rfl, fun status isStatus => ?_⟩
      rw [← some.inj isStatus]
      exact foreign
    · exact .inr ⟨reported browser.clock current phase detail extra, not_not.1 foreign, rfl⟩

theorem OnTab.inject (onTab : OnTab tabId destroyed browser) (attemptId : Nat) :
    OnTab tabId destroyed { browser with
        scripts := browser.scripts ++ [⟨tabId, attemptId, none, .reading, false⟩] } := by
  refine { onTab with destroyed := ?_, scripts := ?_ }
  · intro place gone
    show place < (browser.scripts ++ [_]).length
    rw [length_append]
    exact Nat.lt_add_right _ (onTab.destroyed place gone)
  · intro script member
    rcases mem_append.1 member with old | new
    · exact onTab.scripts script old
    · rw [mem_singleton.1 new]

theorem AttendsOthers.inject {attemptId : Nat}
    (others : AttendsOthers tabId attemptId ⟨browser, destroyed⟩)
    (onTab : OnTab tabId destroyed browser) :
    Attends tabId ⟨{ browser with
        scripts := browser.scripts ++ [⟨tabId, attemptId, none, .reading, false⟩] },
        destroyed⟩ := by
  intro status isStatus running
  by_cases isOwn : status.attemptId = attemptId
  · refine .inr (.inl ⟨browser.scripts.length, ⟨tabId, attemptId, none, .reading, false⟩, ?_, ?_,
      isOwn.symm, rfl⟩)
    · exact getElem?_concat_length
    · exact fun gone => absurd (onTab.destroyed _ gone) (Nat.lt_irrefl _)
  · apply (others status isStatus running isOwn).mono
    · exact fun _ member _ => member
    · intro place script isScript live isAttempt promising
      refine ⟨script, ?_, live, isAttempt, promising⟩
      have below := (List.getElem?_eq_some_iff.1 isScript).1
      exact (getElem?_append_left below).trans isScript
    · exact fun _ armed => armed
    · exact fun recovers => recovers

theorem ingested_isTerminal {title : String} {outcome : Outcome} {phase : CapturePhase}
    {detail : String} {extra : CaptureStatusExtra}
    (isAnswer : ingested title outcome = some (phase, detail, extra)) :
    phase.isTerminal = true := by
  cases outcome with
  | ok => exact nomatch isAnswer
  | failed | created | alreadyExists | alreadyInRubbish | conflict =>
    rw [← (Prod.mk.inj (some.inj isAnswer)).1]; rfl

theorem attends_runTask {outcome : Outcome} (onTab : OnTab tabId destroyed browser)
    (attends : Attends tabId ⟨browser, destroyed⟩) (found : browser.tasks[index]? = some task)
    (own : TaskOwn browser.scripts browser.claims task)
    (runs : runTask { browser with tasks := browser.tasks.eraseIdx index } outcome task
      = some next) : OnTab tabId destroyed next ∧ Attends tabId ⟨next, destroyed⟩ := by
  have resumedTab : OnTab tabId destroyed
      { browser with tasks := browser.tasks.eraseIdx index } := onTab.resumed
  have isTab := onTab.tasks task (mem_of_getElem? found)
  cases task with
  | fetchTab tab attemptId =>
    have sameTab : tab = tabId := isTab
    subst sameTab
    have others := attends.resumedOthers found (by rfl)
    simp only [runTask] at runs
    split at runs
    · split_ifs at runs with isCurrent
      · rw [← some.inj runs]
        have ownTask : TaskOnTab tab (.executeScript tab attemptId) := rfl
        refine ⟨resumedTab.addTask ownTask, ?_⟩
        intro status isStatus running
        by_cases isOwn : status.attemptId = attemptId
        · refine .inl ⟨_, mem_append_right _ (mem_singleton_self _), ?_⟩
          simp [Task.startsFor, isOwn]
        · exact (others status isStatus running isOwn).addTask
      · rw [← some.inj runs]
        refine ⟨resumedTab, others.all ?_⟩
        intro status isStatus _ isOwn
        have isFound : browser.statuses tab = some status := isStatus
        rw [isFound, map_some, isOwn] at isCurrent
        exact isCurrent rfl
    · rw [← some.inj runs]
      exact ⟨resumedTab.report _ _ _ _ _, others.report (.inl rfl)⟩
    · cases runs
  | executeScript tab attemptId =>
    have sameTab : tab = tabId := isTab
    subst sameTab
    have others := attends.resumedOthers found (by rfl)
    simp only [runTask] at runs
    split at runs
    · rw [← some.inj runs]
      exact ⟨resumedTab.inject attemptId, others.inject resumedTab⟩
    · rw [← some.inj runs]
      exact ⟨resumedTab.report _ _ _ _ _, others.report (.inl rfl)⟩
    · cases runs
  | acceptMetadata place stage tab attemptId updatedAt captureId metadata =>
    have sameTab : tab = tabId := isTab
    subst sameTab
    have resumed : Attends tab
        ⟨{ browser with tasks := browser.tasks.eraseIdx index }, destroyed⟩ :=
      attends.resumed found fun _ _ => ⟨rfl, rfl⟩
    rw [← some.inj runs]
    split_ifs
    · refine attends_respond ?_ (resumedTab.resetTimer captureId (some metadata)) stage
      exact fun status isStatus running => (resumed status isStatus running).resetTimer
    · exact attends_respond resumed resumedTab stage
  | claimedError place stage tab detail => exact own.elim
  | respond place stage =>
    rw [← some.inj runs]
    exact attends_respond (attends.resumed found fun _ _ => ⟨rfl, rfl⟩) resumedTab stage
  | loadSettings tab upload =>
    have sameTab : tab = tabId := isTab
    subst sameTab
    have others := attends.resumedOthers found (by rfl)
    simp only [runTask] at runs
    split at runs
    · rcases reportPhase_cases { browser with tasks := browser.tasks.eraseIdx index } tab
        upload.attemptId .uploading (describePhase .uploading) {} with
        ⟨isReport, none⟩ | ⟨reported, isOwn, isReport⟩
      · rw [isReport] at runs
        rw [← some.inj runs]
        exact ⟨resumedTab.addTask trivial,
          (others.all fun status isStatus _ => none status isStatus).addTask⟩
      · rw [isReport] at runs
        rw [← some.inj runs]
        have ownTask : TaskOnTab tab (.reportUploading tab reported.updatedAt upload) := rfl
        have shown : OnTab tab destroyed
            (({ browser with tasks := browser.tasks.eraseIdx index } : Browser).setStatus tab
              (some reported)) := { resumedTab with }
        refine ⟨shown.addTask ownTask, ?_⟩
        intro status isStatus _
        have updated : update browser.statuses tab (some reported) tab = some status := isStatus
        rw [update_self] at updated
        refine .inr (.inr (.inr (.inr ⟨_, mem_append_right _ (mem_singleton_self _), ?_⟩)))
        rw [← some.inj updated]
        simp [Task.uploadsFor, isOwn]
    · rw [← some.inj runs]
      exact ⟨(resumedTab.report _ _ _ _ _).addTask trivial, (others.report (.inl rfl)).addTask⟩
    · cases runs
  | reportUploading tab updatedAt upload =>
    have sameTab : tab = tabId := isTab
    subst sameTab
    have others := attends.resumedOthers found (by rfl)
    simp only [runTask] at runs
    split at runs
    · split_ifs at runs with latest
      · rw [← some.inj runs]
        have sent : OnTab tab destroyed { browser with
              tasks := browser.tasks.eraseIdx index, uploads := browser.uploads ++ [upload] } :=
          { resumedTab with }
        have ownTask : TaskOnTab tab (.ingestArchive tab upload) := rfl
        refine ⟨sent.addTask ownTask, ?_⟩
        intro status isStatus running
        by_cases isOwn : status.attemptId = upload.attemptId
        · refine .inr (.inr (.inr (.inr ⟨_, mem_append_right _ (mem_singleton_self _), ?_⟩)))
          simp [Task.uploadsFor, isOwn]
        · have kept : Expected ⟨{ browser with
                tasks := browser.tasks.eraseIdx index, uploads := browser.uploads ++ [upload] },
                destroyed⟩ tab status := others status isStatus running isOwn
          exact kept.addTask
      · rw [← some.inj runs]
        refine ⟨resumedTab.addTask trivial, Attends.addTask ?_⟩
        -- the status it would report on has been replaced
        apply attends.resumed found
        intro status isStatus
        refine ⟨rfl, ?_⟩
        have notLatest : ¬(status.attemptId = upload.attemptId ∧ status.updatedAt = updatedAt) := by
          simpa [Browser.isLatest, isStatus] using latest
        simp only [Task.uploadsFor, decide_true, Bool.true_and, Bool.and_eq_false_iff,
          decide_eq_false_iff_not]
        by_cases isOwn : upload.attemptId = status.attemptId
        · exact .inr fun same => notLatest ⟨isOwn.symm, same.symm⟩
        · exact .inl isOwn
    · rw [← some.inj runs]
      exact ⟨(resumedTab.report _ _ _ _ _).addTask trivial, (others.report (.inl rfl)).addTask⟩
    · cases runs
  | ingestArchive tab upload =>
    have sameTab : tab = tabId := isTab
    subst sameTab
    have others := attends.resumedOthers found (by rfl)
    simp only [runTask] at runs
    split at runs
    · cases runs
    · rename_i phase detail extra isAnswer
      rw [← some.inj runs]
      have terminal := ingested_isTerminal isAnswer
      exact ⟨(resumedTab.report _ _ _ _ _).addTask trivial, (others.report (.inl terminal)).addTask⟩
  | release url =>
    have resumed : Attends tabId
        ⟨{ browser with tasks := browser.tasks.eraseIdx index }, destroyed⟩ :=
      attends.resumed found fun _ _ => ⟨rfl, rfl⟩
    rw [← some.inj runs]
    exact ⟨{ resumedTab with }, resumed⟩

end Tasks

/-! ### Timers, tabs and restarts -/

section Timers

variable {tabId : Nat} {browser : Browser} {destroyed : List Nat}
  (onTab : OnTab tabId destroyed browser)

include onTab

theorem attends_expire (attends : Attends tabId ⟨browser, destroyed⟩) {captureId : String}
    {transfer : PendingTransfer} (found : browser.transfers captureId = some transfer) :
    OnTab tabId destroyed (expire browser captureId transfer)
      ∧ Attends tabId ⟨expire browser captureId transfer, destroyed⟩ := by
  have isTab := onTab.transfers captureId transfer found
  have cleanTab := onTab.cleanup captureId
  -- the timer that is gone is one of the attempt the capture is bound to
  have clean : ∀ status : CaptureStatus,
      (∀ attempt, browser.captureAttempts captureId = some attempt →
        attempt.attemptId ≠ status.attemptId) →
      Expected ⟨browser, destroyed⟩ tabId status →
      Expected ⟨cleanup browser captureId, destroyed⟩ tabId status := by
    intro status foreign expected
    apply expected.mono
    · exact fun _ member _ => member
    · exact fun place script isScript live isAttempt promising =>
        ⟨script, isScript, live, isAttempt, promising⟩
    · intro other armed
      unfold Browser.timerFor at armed ⊢
      rw [Bool.and_eq_true] at armed ⊢
      refine ⟨?_, armed.2⟩
      by_cases same : other = captureId
      · obtain ⟨attempt, isBound, meets⟩ := (Option.any_eq_true _ _).1 armed.2
        rw [same] at isBound
        simp only [Bool.and_eq_true, decide_eq_true_eq] at meets
        exact absurd meets.2 (foreign attempt isBound)
      · simp only [cleanup, update_of_ne same]
        exact armed.1
    · exact fun recovers => recovers
  unfold expire
  simp only
  split
  · rename_i isNone
    refine ⟨cleanTab, fun status isStatus running => ?_⟩
    refine clean status (fun attempt isBound => ?_) (attends status isStatus running)
    cases isBound.symm.trans isNone
  · rename_i bound isBound
    have boundTab := onTab.bound captureId bound isBound
    rw [if_neg (not_not.2 (boundTab.trans isTab.symm)), isTab]
    refine ⟨cleanTab.report _ _ _ _ _, ?_⟩
    have others : AttendsOthers tabId bound.attemptId ⟨cleanup browser captureId, destroyed⟩ := by
      intro status isStatus running different
      refine clean status (fun attempt isAttempt => ?_) (attends status isStatus running)
      rw [← some.inj (isBound.symm.trans isAttempt)]
      exact different.symm
    exact others.report (.inl rfl)

theorem attends_recover (attends : Attends tabId ⟨browser, destroyed⟩) {index : Nat}
    {timer : Nat × Nat × Nat} (found : browser.recoveries[index]? = some timer) :
    OnTab tabId destroyed
        (recover { browser with recoveries := browser.recoveries.eraseIdx index } timer)
      ∧ Attends tabId
        ⟨recover { browser with recoveries := browser.recoveries.eraseIdx index } timer,
          destroyed⟩ := by
  have erasedTab : OnTab tabId destroyed
      { browser with recoveries := browser.recoveries.eraseIdx index } := { onTab with }
  -- a status the timer does not wait for keeps its own timer
  have erased : ∀ status : CaptureStatus,
      ((tabId, status.attemptId, status.updatedAt) = timer → status.phase ≠ .capturing) →
      Expected ⟨browser, destroyed⟩ tabId status →
      Expected ⟨{ browser with recoveries := browser.recoveries.eraseIdx index }, destroyed⟩ tabId
        status := by
    intro status foreign expected
    apply expected.mono
    · exact fun _ member _ => member
    · exact fun place script isScript live isAttempt promising =>
        ⟨script, isScript, live, isAttempt, promising⟩
    · exact fun _ armed => armed
    · intro recovers
      simp only [Browser.recoversFor, Bool.and_eq_true, decide_eq_true_eq] at recovers ⊢
      refine ⟨recovers.1, ?_⟩
      have different : (tabId, status.attemptId, status.updatedAt) ≠ timer :=
        fun same => foreign same recovers.1
      have ⟨below, isTimer⟩ := List.getElem?_eq_some_iff.1 found
      have reordered := getElem_cons_eraseIdx_perm below
      rw [isTimer] at reordered
      exact mem_of_ne_of_mem different (reordered.mem_iff.2 recovers.2)
  by_cases isTab : timer.1 = tabId
  · unfold recover
    rw [isTab]
    split
    · rename_i isNone
      refine ⟨erasedTab, fun status isStatus running => ?_⟩
      exact nomatch isStatus.symm.trans isNone
    · rename_i current isCurrent
      split_ifs with meets
      · refine ⟨erasedTab.report _ _ _ _ _, ?_⟩
        have others : AttendsOthers tabId timer.2.1
            ⟨{ browser with recoveries := browser.recoveries.eraseIdx index }, destroyed⟩ := by
          intro status isStatus running different
          rw [← some.inj (isCurrent.symm.trans isStatus)] at different
          exact absurd meets.1 different
        exact others.report (.inl rfl)
      · refine ⟨erasedTab, fun status isStatus running => ?_⟩
        refine erased status (fun same isCapturing => ?_) (attends status isStatus running)
        rw [some.inj (isCurrent.symm.trans isStatus), ← same] at meets
        exact meets ⟨rfl, rfl, isCapturing⟩
  · have kept : Attends tabId
        ⟨{ browser with recoveries := browser.recoveries.eraseIdx index }, destroyed⟩ := by
      intro status isStatus running
      refine erased status (fun same _ => ?_) (attends status isStatus running)
      exact isTab (congrArg Prod.fst same).symm
    unfold recover
    split
    · exact ⟨erasedTab, kept⟩
    · split_ifs
      · exact ⟨erasedTab.report _ _ _ _ _, kept.reportElsewhere isTab⟩
      · exact ⟨erasedTab, kept⟩

theorem attends_restart {tabs : List Nat} (isOpen : tabId ∈ tabs) (readable : Bool) :
    OnTab tabId destroyed (restart browser tabs readable)
      ∧ Attends tabId ⟨restart browser tabs readable, destroyed⟩ := by
  refine ⟨?_, ?_⟩
  · exact {
      onTab with
      bound := fun _ _ isBound => (nomatch isBound)
      transfers := fun _ _ isTransfer => (nomatch isTransfer)
      tasks := fun _ member => (nomatch member) }
  · intro status isStatus running
    have isTaken : (if readable then (browser.stored tabId).map (rehydrated browser.clock)
        else none) = some status := isStatus
    have isCapturing : status.phase = .capturing := by
      split_ifs at isTaken
      have ⟨old, _, isNew⟩ := map_eq_some_iff.1 isTaken
      rw [← isNew] at running ⊢
      unfold rehydrated at running ⊢
      cases isPhase : old.phase <;> simp [isPhase, CapturePhase.isTerminal] at running ⊢
    refine .inr (.inr (.inr (.inl ?_)))
    have waits : (tabId, status.attemptId, status.updatedAt)
        ∈ (restart browser tabs readable).recoveries := by
      refine mem_filterMap.2 ⟨tabId, isOpen, ?_⟩
      simp only [isTaken, isCapturing, if_true]
    simp [Browser.recoversFor, isCapturing, waits]

theorem attends_removeTab (attends : Attends tabId ⟨browser, destroyed⟩) (tab : Nat) :
    OnTab tabId destroyed (removeTab browser tab)
      ∧ Attends tabId ⟨removeTab browser tab, destroyed⟩ := by
  refine ⟨?_, ?_⟩
  · refine { onTab with bound := ?_, transfers := ?_ }
    · intro captureId attempt isBound
      exact onTab.bound captureId attempt (eq_some_of_filter_eq_some isBound)
    · intro captureId transfer isTransfer
      simp only [removeTab, Browser.setStatus] at isTransfer
      split_ifs at isTransfer
      exact onTab.transfers captureId transfer isTransfer
  · intro status isStatus running
    have isFound : update browser.statuses tab none tabId = some status := isStatus
    by_cases same : tabId = tab
    · rw [same, update_self] at isFound
      exact nomatch isFound
    · rw [update_of_ne same] at isFound
      apply (attends status isFound running).mono
      · exact fun _ member _ => member
      · exact fun place script isScript live isAttempt promising =>
          ⟨script, isScript, live, isAttempt, promising⟩
      · intro captureId armed
        replace armed : browser.timerFor tabId status.attemptId captureId = true := armed
        show (removeTab browser tab).timerFor tabId status.attemptId captureId = true
        unfold Browser.timerFor at armed ⊢
        rw [Bool.and_eq_true] at armed
        have ⟨transfer, isTransfer, _⟩ := (Option.any_eq_true _ _).1 armed.1
        have ⟨attempt, isBound, meets⟩ := (Option.any_eq_true _ _).1 armed.2
        have transferTab := onTab.transfers captureId transfer isTransfer
        have attemptTab := onTab.bound captureId attempt isBound
        rw [attemptTab] at meets
        simpa [removeTab, Browser.setStatus, isTransfer, isBound, transferTab, attemptTab, same]
          using meets
      · exact fun recovers => recovers

theorem attends_start (attends : Attends tabId ⟨browser, destroyed⟩) {tags : List String}
    {after : Browser} (steps : step browser (.start tabId tags) = some after) :
    OnTab tabId destroyed after ∧ Attends tabId ⟨after, destroyed⟩ := by
  simp only [step, claimAttempt] at steps
  by_cases isRunning : (browser.statuses tabId).any fun current => !current.phase.isTerminal
  · rw [if_pos isRunning] at steps
    rw [← some.inj steps]
    exact ⟨onTab, attends⟩
  · rw [if_neg isRunning] at steps
    rw [← some.inj steps]
    have ownTask : TaskOnTab tabId (.fetchTab tabId browser.claims.length) := rfl
    refine ⟨OnTab.addTask ?_ ownTask, ?_⟩
    · exact { onTab with }
    intro status isStatus _
    refine .inl ⟨_, mem_append_right _ (mem_singleton_self _), ?_⟩
    have updated : update browser.statuses tabId _ tabId = some status := isStatus
    rw [update_self] at updated
    rw [← some.inj updated]
    simp [Task.startsFor]

end Timers

/-! ### Steps and runs -/

section Steps

variable {tabId : Nat} {scene next : Scene}

theorem attends_step {browser after : Browser} {destroyed : List Nat} {taken : Step}
    (attended : Attended tabId ⟨browser, destroyed⟩) (isOn : (Event.step taken).onTab tabId = true)
    (live : ∀ index, actor taken = some index → index ∉ destroyed)
    (takesOver : WorkerTakesOver ⟨browser, destroyed⟩ (.step taken))
    (steps : step browser taken = some after) :
    OnTab tabId destroyed after ∧ Attends tabId ⟨after, destroyed⟩ := by
  obtain ⟨separate, onTab, attends⟩ := attended
  obtain ⟨own, relief⟩ := takesOver
  cases taken with
  | tick =>
    rw [← some.inj steps]
    exact ⟨{ onTab with }, attends⟩
  | start tab tags =>
    have sameTab : tab = tabId := of_decide_eq_true isOn
    subst sameTab
    exact attends_start onTab attends steps
  | read index captured =>
    simp only [step] at steps
    cases found : browser.scripts[index]? with
    | none => simp [found] at steps
    | some script =>
      simp only [found] at steps
      split_ifs at steps with ready
      rw [← some.inj steps]
      have isTab := onTab.scripts script (mem_of_getElem? found)
      refine ⟨onTab.setScript isTab, attends.setScript onTab found (by rfl) (.inl ?_)⟩
      intro promising
      rw [Script.Promises, ready.1] at promising
      exact ⟨captured, rfl, fun awaits => by cases promising.symm.trans awaits⟩
  | refuse index error thrown =>
    simp only [step] at steps
    cases found : browser.scripts[index]? with
    | none => simp [found] at steps
    | some script =>
      simp only [found] at steps
      split_ifs at steps with isReading
      rw [← some.inj steps]
      have isTab := onTab.scripts script (mem_of_getElem? found)
      refine ⟨onTab.setScript isTab, attends.setScript onTab found (by rfl) (.inl ?_)⟩
      intro promising
      rw [Script.Promises, isReading] at promising
      exact promising
  | deliver index =>
    simp only [step] at steps
    cases found : browser.scripts[index]? with
    | none => simp [found] at steps
    | some script =>
      simp only [found] at steps
      split_ifs at steps
      cases isMessage : script.message with
      | none => simp [isMessage] at steps
      | some message =>
        simp only [isMessage] at steps
        rw [← some.inj steps]
        refine attends_deliver separate onTab attends found (live index rfl) isMessage
          (own script message found isMessage) ?_
        intro error last isStage aborted
        exact relief index script rfl found ⟨error, last, isStage, aborted⟩
  | sendFails index error =>
    simp only [step] at steps
    cases found : browser.scripts[index]? with
    | none => simp [found] at steps
    | some script =>
      simp only [found] at steps
      rw [← some.inj steps]
      have isTab := onTab.scripts script (mem_of_getElem? found)
      refine ⟨onTab.setScript isTab, attends.setScript onTab found (by rfl) ?_⟩
      by_cases last : ∃ cause, script.stage = .erring cause true
      · exact .inr (relief index script rfl found last)
      · exact .inl (promises_failed fun cause isStage => last ⟨cause, isStage⟩)
  | resume index outcome =>
    simp only [step] at steps
    cases found : browser.tasks[index]? with
    | none => simp [found] at steps
    | some task =>
      simp only [found] at steps
      exact attends_runTask onTab attends found (separate.tasks task (mem_of_getElem? found)) steps
  | expire captureId =>
    simp only [step] at steps
    cases found : browser.transfers captureId with
    | none => simp [found] at steps
    | some transfer =>
      simp only [found] at steps
      rw [← some.inj steps]
      exact attends_expire onTab attends found
  | recover index =>
    simp only [step] at steps
    cases found : browser.recoveries[index]? with
    | none => simp [found] at steps
    | some timer =>
      simp only [found] at steps
      rw [← some.inj steps]
      exact attends_recover onTab attends found
  | forgetAbort tab =>
    simp only [step] at steps
    split at steps
    · cases steps
    · split_ifs at steps
      rw [← some.inj steps]
      exact ⟨{ onTab with }, attends⟩
  | written stored =>
    simp only [step] at steps
    split at steps
    · cases steps
    · rw [← some.inj steps]
      exact ⟨{ onTab with }, attends⟩
  | removeTab tab =>
    rw [← some.inj steps]
    exact attends_removeTab onTab attends tab
  | restart tabs readable =>
    rw [← some.inj steps]
    exact attends_restart onTab (of_decide_eq_true isOn) readable

theorem attended_act {event : Event} (attended : Attended tabId scene)
    (isOn : event.onTab tabId = true) (takesOver : WorkerTakesOver scene event)
    (acts : act scene event = some next) : Attended tabId next := by
  cases event with
  | step taken =>
    simp only [act] at acts
    split_ifs at acts with gone
    have ⟨after, steps, isNext⟩ := map_eq_some_iff.1 acts
    have live : ∀ index, actor taken = some index → index ∉ scene.destroyed := by
      intro index isActor
      rw [isActor] at gone
      simpa using gone
    have ⟨onTab, attends⟩ := attends_step attended isOn live takesOver steps
    rw [← isNext]
    exact ⟨separate_step attended.separate takesOver.1 steps, onTab, attends⟩
  | destroy index =>
    simp only [act] at acts
    split_ifs at acts with below
    rw [← some.inj acts]
    refine ⟨attended.separate, { attended.onTab with destroyed := ?_ }, ?_⟩
    · intro other member
      rcases mem_cons.1 member with new | old
      · rw [new]
        exact below
      · exact attended.onTab.destroyed other old
    · exact attended.attends.destroy attended.onTab takesOver

end Steps

/-! ### How an attempt ends -/

/-- Time passes, a script or the worker goes on, or a timer fires. -/
def Event.isOrdinary : Event → Bool
  | .step .tick | .step (.refuse _ _ _) | .step (.deliver _) | .step (.sendFails _ _)
  | .step (.resume _ _) | .step (.expire _) | .step (.recover _) => true
  | _ => false

def Idle (tabId : Nat) (browser : Browser) : Prop :=
  ∀ status, browser.statuses tabId = some status → status.phase.isTerminal = true

def CanEnd (tabId : Nat) (scene : Scene) : Prop :=
  ∃ more final, (∀ event ∈ more, Event.isOrdinary event = true) ∧ run act scene more = some final
    ∧ Idle tabId final.browser

section Ending

variable {tabId index : Nat} {browser after : Browser} {destroyed : List Nat} {script : Script}
  {status : CaptureStatus}

theorem CanEnd.now (idle : Idle tabId browser) : CanEnd tabId ⟨browser, destroyed⟩ :=
  ⟨[], ⟨browser, destroyed⟩, nofun, rfl, idle⟩

theorem CanEnd.step (taken : Step) (ordinary : (Event.step taken).isOrdinary = true)
    (live : ∀ index, actor taken = some index → index ∉ destroyed)
    (steps : Capture.step browser taken = some after) (ends : CanEnd tabId ⟨after, destroyed⟩) :
    CanEnd tabId ⟨browser, destroyed⟩ := by
  have ⟨more, final, allOrdinary, runs, idle⟩ := ends
  refine ⟨.step taken :: more, final, ?_, ?_, idle⟩
  · exact forall_mem_cons.2 ⟨ordinary, allOrdinary⟩
  · have here : ¬(actor taken).any (fun index => index ∈ destroyed) = true := by
      intro gone
      have ⟨index, isActor, isGone⟩ := (Option.any_eq_true _ _).1 gone
      exact live index isActor (of_decide_eq_true isGone)
    simp only [run, act, if_neg here, steps, map_some, bind_some]
    exact runs

theorem CanEnd.deliver (found : browser.scripts[index]? = some script) (live : index ∉ destroyed)
    (idle : script.awaiting = false) {message : Message} (sends : script.message = some message)
    (ends : Idle tabId (handleMessage (browser.setScript index { script with awaiting := true })
      ⟨index, script.stage, script.tabId⟩ message)) : CanEnd tabId ⟨browser, destroyed⟩ := by
  refine CanEnd.step (.deliver index) rfl ?_ ?_ (CanEnd.now ends)
  · intro place same
    rw [← some.inj same]
    exact live
  · simp only [Capture.step, found, idle, sends, Bool.false_eq_true, if_false]

theorem CanEnd.wait (waited : Nat)
    (ends : CanEnd tabId ⟨{ browser with clock := browser.clock + waited }, destroyed⟩) :
    CanEnd tabId ⟨browser, destroyed⟩ := by
  induction waited generalizing browser with
  | zero => exact ends
  | succ waited ih =>
    apply CanEnd.step .tick rfl nofun rfl
    apply ih
    have later : browser.clock + 1 + waited = browser.clock + (waited + 1) := by omega
    show CanEnd tabId ⟨{ browser with clock := browser.clock + 1 + waited }, destroyed⟩
    rw [later]
    exact ends

theorem idle_report {attemptId : Nat} {phase : CapturePhase} {detail : String}
    {extra : CaptureStatusExtra} (isStatus : browser.statuses tabId = some status)
    (isOwn : status.attemptId = attemptId) (terminal : phase.isTerminal = true) :
    Idle tabId (reportPhase browser tabId attemptId phase detail extra).1 := by
  intro shown isShown
  simp only [reportPhase, isStatus, isOwn, ne_eq, not_true_eq_false, if_false] at isShown
  have updated : update browser.statuses tabId _ tabId = some shown := isShown
  rw [update_self] at updated
  rw [← some.inj updated]
  exact terminal

theorem idle_handleError {sender : Sender} {error : String} (isTab : sender.tabId = tabId)
    (isStatus : browser.statuses tabId = some status)
    (unmarked : ¬JustAborted browser tabId error) :
    Idle tabId (handleError browser sender error) := by
  have ⟨recentAborts, consumed, isConsumed⟩ := consumeMatchingAbortError_cases browser tabId error
  unfold handleError
  rw [isTab, isConsumed]
  cases consumed with
  | true => exact absurd (justAborted_of_consume (by rw [isConsumed])) unmarked
  | false =>
    have found : ({ browser with recentAborts } : Browser).statuses tabId = some status := isStatus
    simp only
    unfold reportUnconditionalError
    rw [isTab, found]
    simp only
    split_ifs with shown
    · intro current isCurrent
      rw [← some.inj (isStatus.symm.trans isCurrent), shown.1]
      rfl
    · exact idle_report found rfl rfl

theorem canEnd_erring (isTab : script.tabId = tabId)
    (isStatus : browser.statuses tabId = some status)
    (found : browser.scripts[index]? = some script) (live : index ∉ destroyed) {error : String}
    {last : Bool} (isStage : script.stage = .erring error last)
    (idle : script.awaiting = false) : CanEnd tabId ⟨browser, destroyed⟩ := by
  obtain ⟨waited, unmarked⟩ : ∃ waited, ¬JustAborted
      (({ browser with clock := browser.clock + waited } : Browser).setScript index
        { script with awaiting := true }) tabId error := by
    cases isMarker : browser.recentAborts tabId with
    | none =>
      refine ⟨0, ?_⟩
      rintro ⟨marker, isSome, _⟩
      exact nomatch isMarker.symm.trans isSome
    | some marker =>
      refine ⟨marker.expiresAt + 1, ?_⟩
      rintro ⟨other, isSome, inTime, _⟩
      have isOther : marker = other := some.inj (isMarker.symm.trans isSome)
      have notLate : browser.clock + (marker.expiresAt + 1) ≤ other.expiresAt := inTime
      rw [← isOther] at notLate
      omega
  apply CanEnd.wait waited
  have sends : script.message = some (.captureError error) := by
    unfold Script.message
    rw [isStage]
  refine CanEnd.deliver found live idle sends ?_
  exact idle_handleError isTab isStatus unmarked

theorem canEnd_aborting (separate : Separate browser) (onTab : OnTab tabId destroyed browser)
    (isStatus : browser.statuses tabId = some status) (running : status.phase.isTerminal = false)
    (found : browser.scripts[index]? = some script) (live : index ∉ destroyed)
    (isOwn : script.attemptId = status.attemptId) {error : String} {captured : Captured}
    (isStage : script.stage = .aborting error) (isCaptured : script.capture = some captured)
    (idle : script.awaiting = false) : CanEnd tabId ⟨browser, destroyed⟩ := by
  have isTab := onTab.scripts script (mem_of_getElem? found)
  subst isTab
  have waits : Separate (browser.setScript index { script with awaiting := true }) :=
    separate.setScript found rfl rfl id
  have waitsTab : OnTab script.tabId destroyed
      (browser.setScript index { script with awaiting := true }) :=
    onTab.setScript rfl
  have sends : Sends (browser.setScript index { script with awaiting := true }).scripts
      script.attemptId captured :=
    ⟨{ script with awaiting := true }, mem_set (List.getElem?_eq_some_iff.1 found).1 _, rfl,
      isCaptured⟩
  have own : BindsOwn (browser.setScript index { script with awaiting := true }) script.tabId
      script.attemptId captured.captureId := by
    intro _ current isCurrent _
    rw [← some.inj (isStatus.symm.trans isCurrent)]
    exact isOwn.symm
  have isMessage : script.message = some (.captureAbort captured.captureId error) := by
    unfold Script.message
    rw [isStage, isCaptured]
  refine CanEnd.deliver found live idle isMessage ?_
  show Idle script.tabId (handleAbort _ _ _ _)
  unfold handleAbort
  rcases bind_own_cases waits waitsTab sends own with
    ⟨_, none⟩ | ⟨bindings, attempt, isBind, binds⟩
  · exact absurd isOwn.symm (none status isStatus running)
  · rw [isBind]
    exact idle_report isStatus (isOwn.symm.trans binds.isAttempt.symm) rfl

theorem canEnd_script (separate : Separate browser) (onTab : OnTab tabId destroyed browser)
    (isStatus : browser.statuses tabId = some status) (running : status.phase.isTerminal = false)
    (found : browser.scripts[index]? = some script) (live : index ∉ destroyed)
    (isOwn : script.attemptId = status.attemptId) (promising : script.Promises) :
    CanEnd tabId ⟨browser, destroyed⟩ := by
  have isTab := onTab.scripts script (mem_of_getElem? found)
  have below := (List.getElem?_eq_some_iff.1 found).1
  have isActor : ∀ place, some index = some place → place ∉ destroyed := by
    intro place same
    rw [← some.inj same]
    exact live
  rw [Script.Promises] at promising
  cases isStage : script.stage with
  | reading =>
    simp only [isStage] at promising
    apply CanEnd.step (.refuse index "" true) rfl isActor
    · simp only [step, found, isStage, if_true]
      rfl
    · have refused : (browser.setScript index
          { script with stage := .erring "" true }).scripts[index]?
            = some { script with stage := .erring "" true } := getElem?_set_self below
      have refusedTab : ({ script with stage := .erring "" true } : Script).tabId = tabId := isTab
      exact canEnd_erring refusedTab isStatus refused live rfl promising
  | transferring sent =>
    simp only [isStage] at promising
    obtain ⟨captured, isCaptured, _⟩ := promising
    have isFailed : script.failed "" = .aborting "" := by
      unfold Script.failed
      rw [isStage]
    apply CanEnd.step (.sendFails index "") rfl isActor
    · simp only [step, found, isFailed]
      rfl
    · have failed : Separate
          (browser.setScript index { script with awaiting := false, stage := .aborting "" }) :=
        separate.setScript found rfl rfl (by simp)
      exact canEnd_aborting failed (onTab.setScript isTab) isStatus running
        (getElem?_set_self below) live isOwn rfl isCaptured rfl
  | aborting error =>
    simp only [isStage] at promising
    obtain ⟨idle, captured, isCaptured⟩ := promising
    exact canEnd_aborting separate onTab isStatus running found live isOwn isStage isCaptured idle
  | erring error last =>
    simp only [isStage] at promising
    exact canEnd_erring isTab isStatus found live isStage promising
  | finished =>
    simp only [isStage] at promising

theorem canEnd_task {task : Task} (isStatus : browser.statuses tabId = some status)
    (member : task ∈ browser.tasks)
    (attendsTo : task.startsFor tabId status.attemptId = true
      ∨ task.uploadsFor tabId status = true) : CanEnd tabId ⟨browser, destroyed⟩ := by
  obtain ⟨place, found⟩ := mem_iff_getElem?.1 member
  obtain ⟨after, steps, idle⟩ : ∃ after,
      runTask { browser with tasks := browser.tasks.eraseIdx place } (.failed "") task = some after
        ∧ Idle tabId after := by
    have waiting : ({ browser with tasks := browser.tasks.eraseIdx place } : Browser).statuses tabId
        = some status := isStatus
    cases task <;> simp only [Task.startsFor, Task.uploadsFor, Bool.false_eq_true, or_false,
      false_or, Bool.and_eq_true, decide_eq_true_eq] at attendsTo
    case fetchTab tab attemptId =>
      rw [attendsTo.1, attendsTo.2]
      exact ⟨_, rfl, idle_report waiting rfl rfl⟩
    case executeScript tab attemptId =>
      rw [attendsTo.1, attendsTo.2]
      exact ⟨_, rfl, idle_report waiting rfl rfl⟩
    case loadSettings tab upload =>
      rw [attendsTo.1]
      exact ⟨_, rfl, idle_report waiting attendsTo.2.symm rfl⟩
    case reportUploading tab updatedAt upload =>
      rw [attendsTo.1.1]
      exact ⟨_, rfl, idle_report waiting attendsTo.1.2.symm rfl⟩
    case ingestArchive tab upload =>
      rw [attendsTo.1]
      exact ⟨_, rfl, idle_report waiting attendsTo.2.symm rfl⟩
  apply CanEnd.step (.resume place (.failed "")) rfl (by simp [actor]) ?_ (CanEnd.now idle)
  simp only [step, found]
  exact steps

theorem Attended.canEnd {scene : Scene} (attended : Attended tabId scene) : CanEnd tabId scene := by
  obtain ⟨separate, onTab, attends⟩ := attended
  by_cases idle : Idle tabId scene.browser
  · exact CanEnd.now idle
  · obtain ⟨status, isStatus, running⟩ : ∃ status, scene.browser.statuses tabId = some status
        ∧ status.phase.isTerminal = false := by
      simpa [Idle] using idle
    rcases attends status isStatus running with ⟨task, member, starts⟩
      | ⟨index, script, found, live, isAttempt, promising⟩ | ⟨captureId, armed⟩ | recovers
      | ⟨task, member, uploads⟩
    · exact canEnd_task isStatus member (.inl starts)
    · exact canEnd_script separate onTab isStatus running found live isAttempt promising
    · unfold Browser.timerFor at armed
      rw [Bool.and_eq_true] at armed
      obtain ⟨transfer, isTransfer, _⟩ := (Option.any_eq_true _ _).1 armed.1
      obtain ⟨attempt, isBound, meets⟩ := (Option.any_eq_true _ _).1 armed.2
      simp only [Bool.and_eq_true, decide_eq_true_eq] at meets
      have transferTab := onTab.transfers captureId transfer isTransfer
      have expires : Idle tabId (expire scene.browser captureId transfer) := by
        have bound : (cleanup scene.browser captureId).captureAttempts captureId = some attempt :=
          isBound
        have waiting : (cleanup scene.browser captureId).statuses tabId = some status := isStatus
        simp only [expire, bound, meets.1, transferTab, ne_eq, not_true_eq_false, if_false]
        exact idle_report waiting meets.2.symm rfl
      refine CanEnd.step (.expire captureId) rfl (by simp [actor]) ?_ (CanEnd.now expires)
      simp only [step, isTransfer]
    · simp only [Browser.recoversFor, Bool.and_eq_true, decide_eq_true_eq] at recovers
      obtain ⟨place, isTimer⟩ := mem_iff_getElem?.1 recovers.2
      have recovered : Idle tabId
          (recover { scene.browser with recoveries := scene.browser.recoveries.eraseIdx place }
            (tabId, status.attemptId, status.updatedAt)) := by
        simp only [recover, isStatus, recovers.1, and_self, if_true]
        exact idle_report isStatus rfl rfl
      refine CanEnd.step (.recover place) rfl (by simp [actor]) ?_ (CanEnd.now recovered)
      simp only [step, isTimer]
    · exact canEnd_task isStatus member (.inr uploads)

end Ending

theorem attended_initial (tabId : Nat) : Attended tabId Scene.initial := by
  refine ⟨separate_initial, ?_, nofun⟩
  constructor
  all_goals simp [Scene.initial, Browser.initial]

/-- An unfinished attempt has something that can end it, without a restart of the worker. -/
theorem unfinished_attempt_is_outstanding {tabId : Nat} {events : List Event} {scene : Scene}
    (onTab : ∀ event ∈ events, Event.onTab tabId event = true)
    (takesOver : Throughout act WorkerTakesOver Scene.initial events)
    (runs : run act Scene.initial events = some scene) :
    (∀ status, scene.browser.statuses tabId = some status → status.phase.isTerminal = false →
        Outstanding scene tabId status)
      ∧ ∃ more final, (∀ event ∈ more, Event.isOrdinary event = true)
        ∧ run act scene more = some final
        ∧ ∀ tags, (claimAttempt final.browser tabId tags).2.isSome = true := by
  have attended : Attended tabId scene := invariant_of_throughout
      (fun _ _ _ holds meets acts => attended_act holds meets.1 meets.2 acts)
      (attended_initial tabId) (throughout_and (throughout_of_forall onTab) takesOver) runs
  refine ⟨fun status isStatus running => ?_, ?_⟩
  · exact (attended.attends status isStatus running).outstanding attended.onTab
  · have ⟨more, final, ordinary, runsOn, idle⟩ := attended.canEnd
    refine ⟨more, final, ordinary, runsOn, fun tags => ?_⟩
    have notRunning : ¬((final.browser.statuses tabId).any fun current =>
        !current.phase.isTerminal) = true := by
      intro isRunning
      have ⟨status, isStatus, running⟩ := (Option.any_eq_true _ _).1 isRunning
      rw [idle status isStatus] at running
      exact nomatch running
    rw [claimAttempt, if_neg notRunning]
    rfl

def leftInTransfer : List Event :=
  [.step (.start 7 []), .step (.resume 0 .ok), .step (.resume 0 .ok), .step (.read 0 onePage),
    .step (.deliver 0), .step (.resume 0 .ok), .destroy 0]

def leftWhileReading : List Event :=
  [.step (.start 7 []), .step (.resume 0 .ok), .step (.resume 0 .ok), .destroy 0]

def sceneAfter (events : List Event) : Scene := (run act Scene.initial events).getD Scene.initial

theorem unfinished_attempt_is_outstanding_in_transfer :
    Throughout act WorkerTakesOver Scene.initial leftInTransfer
      ∧ ∃ status, (sceneAfter leftInTransfer).browser.statuses 7 = some status
        ∧ status.phase = .processing ∧ Outstanding (sceneAfter leftInTransfer) 7 status := by
  have takesOver : Throughout act WorkerTakesOver Scene.initial leftInTransfer := by
    decide
  have runs : run act Scene.initial leftInTransfer = some (sceneAfter leftInTransfer) := rfl
  have isPhase : ((sceneAfter leftInTransfer).browser.statuses 7).map CaptureStatus.phase
      = some .processing := by decide
  have ⟨status, isStatus, processing⟩ := map_eq_some_iff.1 isPhase
  refine ⟨takesOver, status, isStatus, processing, ?_⟩
  apply (unfinished_attempt_is_outstanding (by decide) takesOver runs).1 status isStatus
  rw [processing]
  rfl

/-- A script that is destroyed while it reads leaves its attempt with nothing that will end it. -/
theorem left_while_reading_never_ends : ¬∀ (tabId : Nat) (events : List Event) (scene : Scene),
      (∀ event ∈ events, Event.onTab tabId event = true) →
      run act Scene.initial events = some scene →
      (∀ status, scene.browser.statuses tabId = some status → status.phase.isTerminal = false →
        Outstanding scene tabId status) := by
  intro always
  have runs : run act Scene.initial leftWhileReading = some (sceneAfter leftWhileReading) := rfl
  have isPhase : ((sceneAfter leftWhileReading).browser.statuses 7).map CaptureStatus.phase
      = some .capturing := by decide
  have ⟨status, isStatus, capturing⟩ := map_eq_some_iff.1 isPhase
  have noTasks : (sceneAfter leftWhileReading).browser.tasks = [] := by decide
  have running : status.phase.isTerminal = false := by
    rw [capturing]
    rfl
  rcases always 7 leftWhileReading _ (by decide) runs status isStatus running with
    ⟨task, member, _⟩ | ⟨index, script, found, live, _⟩ | ⟨captureId, armed⟩ | recovers
    | ⟨task, member, _⟩
  · rw [noTasks] at member
    exact nomatch member
  · have below := (List.getElem?_eq_some_iff.1 found).1
    have only : (sceneAfter leftWhileReading).browser.scripts.length = 1 := by decide
    have isFirst : index = 0 := by omega
    have gone : 0 ∈ (sceneAfter leftWhileReading).destroyed := by decide
    rw [isFirst] at live
    exact live gone
  · exact nomatch armed
  · have noTimers : (sceneAfter leftWhileReading).browser.recoveries = [] := by decide
    simp [Browser.recoversFor, noTimers] at recovers
  · rw [noTasks] at member
    exact nomatch member

end Clepsydra.Capture
