import Clepsydra.Capture.Worker

/-!
Owns: which attempt a content script belongs to, and what its messages may touch.

Proves: while every message meets its own attempt, it changes no other one, and every upload is the
snapshot of its attempt's script.
-/

namespace Clepsydra.Capture

open Library Library.Transitions List Function Option

/-! ### What belongs to an attempt -/

def Sends (scripts : List Script) (attemptId : Nat) (captured : Captured) : Prop :=
  ∃ script ∈ scripts, script.attemptId = attemptId ∧ script.capture = some captured

def Tagged (claims : List (List String)) (attemptId : Nat) (tags : List String) : Prop :=
  ∃ claimed restarts, claims[attemptId]? = some claimed
    ∧ tags = normalizeCaptureTags^[restarts] claimed

structure Genuine (scripts : List Script) (claims : List (List String)) (upload : Upload) : Prop where
  sent : ∃ captured, Sends scripts upload.attemptId captured
    ∧ captured.metadata = upload.metadata ∧ captured.snapshotHtml = upload.snapshotHtml
  tagged : Tagged claims upload.attemptId upload.additionalTags

def TaskOwn (scripts : List Script) (claims : List (List String)) : Task → Prop
  | .acceptMetadata _ _ _ _ _ captureId metadata =>
    ∃ attemptId captured, Sends scripts attemptId captured ∧ captured.captureId = captureId
      ∧ captured.metadata = metadata
  | .claimedError _ _ _ _ => False
  | .loadSettings _ upload => Genuine scripts claims upload
  | .reportUploading _ _ upload => Genuine scripts claims upload
  | .ingestArchive _ upload => Genuine scripts claims upload
  | .fetchTab _ _ | .executeScript _ _ | .respond _ _ | .release _ => True

def StatusesTagged (claims : List (List String)) (statuses : Statuses) : Prop :=
  ∀ tabId status, statuses tabId = some status →
    Tagged claims status.attemptId status.additionalTags

structure Separate (browser : Browser) : Prop where
  statuses : StatusesTagged browser.claims browser.statuses
  stored : StatusesTagged browser.claims browser.stored
  writes : ∀ snapshot ∈ browser.writes, StatusesTagged browser.claims snapshot
  bound : ∀ captureId attempt, browser.captureAttempts captureId = some attempt →
    Tagged browser.claims attempt.attemptId attempt.additionalTags
      ∧ ∃ captured, Sends browser.scripts attempt.attemptId captured
        ∧ captured.captureId = captureId
  metadata : ∀ captureId metadata, browser.metadataOf captureId = some metadata →
    ∃ attemptId captured, Sends browser.scripts attemptId captured
      ∧ captured.captureId = captureId ∧ captured.metadata = metadata
  buffers : ∀ captureId buffer, browser.buffers captureId = some buffer →
    ∃ attemptId captured, Sends browser.scripts attemptId captured
      ∧ captured.captureId = captureId ∧ Holds captured.snapshotHtml buffer
  tasks : ∀ task ∈ browser.tasks, TaskOwn browser.scripts browser.claims task
  uploads : ∀ upload ∈ browser.uploads, Genuine browser.scripts browser.claims upload
  reading : ∀ script ∈ browser.scripts, script.stage = .reading → script.capture = none
  unique : ∀ attemptId captured attemptId' captured', Sends browser.scripts attemptId captured →
    Sends browser.scripts attemptId' captured' → captured.captureId = captured'.captureId →
    attemptId = attemptId' ∧ captured = captured'

/-! ### Growing -/

section Growing

variable {scripts scripts' : List Script} {claims claims' : List (List String)}

theorem Tagged.append {attemptId : Nat} {tags : List String} (tagged : Tagged claims attemptId tags)
    (more : List (List String)) : Tagged (claims ++ more) attemptId tags := by
  have ⟨claimed, restarts, isClaimed, isTags⟩ := tagged
  have below := (List.getElem?_eq_some_iff.1 isClaimed).1
  exact ⟨claimed, restarts, by rw [getElem?_append_left below, isClaimed], isTags⟩

theorem Tagged.normalized {attemptId : Nat} {tags : List String}
    (tagged : Tagged claims attemptId tags) :
    Tagged claims attemptId (normalizeCaptureTags tags) := by
  have ⟨claimed, restarts, isClaimed, isTags⟩ := tagged
  exact ⟨claimed, restarts + 1, isClaimed, by rw [iterate_succ_apply', isTags]⟩

variable
  (sends : ∀ attemptId captured, Sends scripts attemptId captured → Sends scripts' attemptId captured)
  (tagged : ∀ attemptId tags, Tagged claims attemptId tags → Tagged claims' attemptId tags)

include sends tagged

theorem Genuine.mono {upload : Upload} (genuine : Genuine scripts claims upload) :
    Genuine scripts' claims' upload := by
  have ⟨captured, sent, same⟩ := genuine.sent
  exact ⟨⟨captured, sends _ _ sent, same⟩, tagged _ _ genuine.tagged⟩

theorem TaskOwn.mono {task : Task} (own : TaskOwn scripts claims task) :
    TaskOwn scripts' claims' task := by
  cases task with
  | acceptMetadata index stage tabId attemptId updatedAt captureId metadata =>
    have ⟨owner, captured, sent, same⟩ := own
    exact ⟨owner, captured, sends _ _ sent, same⟩
  | claimedError index stage tabId detail => exact own
  | loadSettings | reportUploading | ingestArchive => exact Genuine.mono sends tagged own
  | fetchTab | executeScript | respond | release => trivial

end Growing

section Parts

variable {browser : Browser} (separate : Separate browser)

include separate

theorem Separate.addTask {task : Task} (own : TaskOwn browser.scripts browser.claims task) :
    Separate (browser.addTask task) := by
  refine { separate with tasks := fun other member => ?_ }
  rcases mem_append.1 member with old | new
  · exact separate.tasks other old
  · rw [mem_singleton.1 new]
    exact own

theorem Separate.answer (sender : Sender) :
    Separate (browser.answer sender) :=
  separate.addTask trivial

theorem Separate.setStatus {tabId : Nat} {status : Option CaptureStatus}
    (tagged : ∀ current, status = some current →
      Tagged browser.claims current.attemptId current.additionalTags) :
    Separate (browser.setStatus tabId status) := by
  have updated : StatusesTagged browser.claims (update browser.statuses tabId status) := by
    intro other current isCurrent
    by_cases same : other = tabId
    · rw [same, update_self] at isCurrent
      exact tagged current isCurrent
    · rw [update_of_ne same] at isCurrent
      exact separate.statuses other current isCurrent
  refine { separate with statuses := updated, writes := fun snapshot member => ?_ }
  rcases mem_append.1 member with old | new
  · exact separate.writes snapshot old
  · rw [mem_singleton.1 new]
    exact updated

theorem Separate.reportPhase (tabId attemptId : Nat) (phase : CapturePhase) (detail : String)
    (extra : CaptureStatusExtra) :
    Separate (reportPhase browser tabId attemptId phase detail extra).1 := by
  unfold Capture.reportPhase
  cases found : browser.statuses tabId with
  | none => exact separate
  | some current =>
    simp only
    split_ifs
    · exact separate
    · apply separate.setStatus
      intro status isStatus
      rw [← some.inj isStatus]
      exact separate.statuses tabId current found

theorem Separate.cleanup (captureId : String) :
    Separate (cleanup browser captureId) := by
  refine { separate with metadata := fun other metadata found => ?_, buffers := fun other buffer found => ?_ }
  · by_cases same : other = captureId
    · simp [Browser.metadataOf, Capture.cleanup, same] at found
    · simp only [Browser.metadataOf, Capture.cleanup, update_of_ne same] at found
      exact separate.metadata other metadata found
  · by_cases same : other = captureId
    · simp [Capture.cleanup, same] at found
    · simp only [Capture.cleanup, update_of_ne same] at found
      exact separate.buffers other buffer found

theorem Separate.resetTimer {captureId : String} {tabId : Nat} {metadata : Option CaptureMetadata}
    (own : ∀ known, metadata = some known → ∃ attemptId captured,
      Sends browser.scripts attemptId captured ∧ captured.captureId = captureId
        ∧ captured.metadata = known) : Separate (resetTimer browser captureId tabId metadata) := by
  refine { separate with metadata := fun other known found => ?_ }
  by_cases same : other = captureId
  · simp only [Browser.metadataOf, Capture.resetTimer, same, update_self, bind_some] at found
    have ⟨attemptId, captured, sends, isId, isMetadata⟩ := own known found
    exact ⟨attemptId, captured, sends, isId.trans same.symm, isMetadata⟩
  · simp only [Browser.metadataOf, Capture.resetTimer, update_of_ne same] at found
    exact separate.metadata other known found

end Parts

theorem Separate.grow {browser : Browser} (separate : Separate browser) {scripts : List Script}
    {claims : List (List String)}
    (sends : ∀ attemptId captured, Sends browser.scripts attemptId captured →
      Sends scripts attemptId captured)
    (tagged : ∀ attemptId tags, Tagged browser.claims attemptId tags → Tagged claims attemptId tags)
    (reading : ∀ script ∈ scripts, script.stage = .reading → script.capture = none)
    (unique : ∀ attemptId captured attemptId' captured', Sends scripts attemptId captured →
      Sends scripts attemptId' captured' → captured.captureId = captured'.captureId →
      attemptId = attemptId' ∧ captured = captured') :
    Separate { browser with scripts, claims } := by
  refine ⟨?_, ?_, ?_, ?_, ?_, ?_, ?_, ?_, reading, unique⟩
  · exact fun tabId status found => tagged _ _ (separate.statuses tabId status found)
  · exact fun tabId status found => tagged _ _ (separate.stored tabId status found)
  · exact fun snapshot member tabId status found =>
      tagged _ _ (separate.writes snapshot member tabId status found)
  · intro captureId attempt isBound
    have ⟨isTagged, captured, isSent, isId⟩ := separate.bound captureId attempt isBound
    exact ⟨tagged _ _ isTagged, captured, sends _ _ isSent, isId⟩
  · intro captureId metadata isKnown
    have ⟨attemptId, captured, isSent, same⟩ := separate.metadata captureId metadata isKnown
    exact ⟨attemptId, captured, sends _ _ isSent, same⟩
  · intro captureId buffer isBuffer
    have ⟨attemptId, captured, isSent, same⟩ := separate.buffers captureId buffer isBuffer
    exact ⟨attemptId, captured, sends _ _ isSent, same⟩
  · exact fun task member => TaskOwn.mono sends tagged (separate.tasks task member)
  · exact fun upload member => Genuine.mono sends tagged (separate.uploads upload member)

/-! ### Scripts -/

section Scripts

variable {scripts : List Script} {index : Nat} {script script' : Script}

theorem sends_set {attemptId : Nat} {captured : Captured}
    (sends : Sends (scripts.set index script') attemptId captured) :
    Sends scripts attemptId captured
      ∨ (script'.attemptId = attemptId ∧ script'.capture = some captured) := by
  have ⟨other, member, isAttempt, isCapture⟩ := sends
  rcases mem_or_eq_of_mem_set member with old | new
  · exact .inl ⟨other, old, isAttempt, isCapture⟩
  · rw [new] at isAttempt isCapture
    exact .inr ⟨isAttempt, isCapture⟩

theorem sends_of_set (found : scripts[index]? = some script)
    (sameAttempt : script'.attemptId = script.attemptId)
    (kept : script.capture = none ∨ script'.capture = script.capture) {attemptId : Nat}
    {captured : Captured} (sends : Sends scripts attemptId captured) :
    Sends (scripts.set index script') attemptId captured := by
  have ⟨other, member, isAttempt, isCapture⟩ := sends
  have ⟨place, isOther⟩ := mem_iff_getElem?.1 member
  have below : index < scripts.length := (List.getElem?_eq_some_iff.1 found).1
  by_cases same : index = place
  · rw [← same, found] at isOther
    rw [← some.inj isOther] at isAttempt isCapture
    refine ⟨script', mem_set below script', sameAttempt.trans isAttempt, ?_⟩
    rcases kept with none | same
    · rw [none] at isCapture
      cases isCapture
    · rw [same, isCapture]
  · refine ⟨other, mem_iff_getElem?.2 ⟨place, ?_⟩, isAttempt, isCapture⟩
    rw [getElem?_set_ne same, isOther]

theorem Separate.setScript {browser : Browser} (separate : Separate browser)
    (found : browser.scripts[index]? = some script)
    (sameAttempt : script'.attemptId = script.attemptId)
    (sameCapture : script'.capture = script.capture)
    (reading : script'.stage = .reading → script.stage = .reading) :
    Separate (browser.setScript index script') := by
  have back : ∀ attemptId captured, Sends (browser.scripts.set index script') attemptId captured →
      Sends browser.scripts attemptId captured := by
    intro attemptId captured sends
    rcases sends_set sends with old | ⟨isAttempt, isCapture⟩
    · exact old
    · exact ⟨script, mem_of_getElem? found, sameAttempt.symm.trans isAttempt,
        sameCapture.symm.trans isCapture⟩
  apply separate.grow
  · exact fun _ _ => sends_of_set found sameAttempt (.inr sameCapture)
  · exact fun _ _ => id
  · intro other member isReading
    rcases mem_or_eq_of_mem_set member with old | new
    · exact separate.reading other old isReading
    · rw [new] at isReading ⊢
      rw [sameCapture]
      exact separate.reading script (mem_of_getElem? found) (reading isReading)
  · exact fun _ _ _ _ sends sends' same =>
      separate.unique _ _ _ _ (back _ _ sends) (back _ _ sends') same

theorem Separate.read {browser : Browser} (separate : Separate browser) {captured : Captured}
    {stage : Stage} (found : browser.scripts[index]? = some script) (isReading : script.stage = .reading)
    (fresh : browser.isFresh captured.captureId = true) (moved : stage ≠ .reading) :
    Separate (browser.setScript index { script with capture := some captured, stage }) := by
  have member := mem_of_getElem? found
  have nothing := separate.reading script member isReading
  have isNew : ∀ attemptId other, Sends browser.scripts attemptId other →
      other.captureId ≠ captured.captureId := by
    intro attemptId other sends
    have ⟨owner, isOwner, _, isCapture⟩ := sends
    have differs := List.all_eq_true.1 fresh owner isOwner
    simpa [isCapture] using differs
  apply separate.grow
  · intro attemptId other sends
    exact sends_of_set found (by rfl) (.inl nothing) sends
  · exact fun _ _ => id
  · intro other isOther otherReads
    rcases mem_or_eq_of_mem_set isOther with old | new
    · exact separate.reading other old otherReads
    · rw [new] at otherReads
      exact absurd otherReads moved
  · intro attemptId first attemptId' second sends sends' same
    rcases sends_set sends with old | ⟨isAttempt, isCapture⟩
    · rcases sends_set sends' with old' | ⟨_, isCapture'⟩
      · exact separate.unique _ _ _ _ old old' same
      · rw [← some.inj isCapture'] at same
        exact absurd same (isNew _ _ old)
    · rcases sends_set sends' with old' | ⟨isAttempt', isCapture'⟩
      · rw [← some.inj isCapture] at same
        exact absurd same.symm (isNew _ _ old')
      · exact ⟨isAttempt.symm.trans isAttempt', some.inj (isCapture.symm.trans isCapture')⟩

theorem Separate.inject {browser : Browser} (separate : Separate browser) (tabId attemptId : Nat) :
    Separate { browser with
      scripts := browser.scripts ++ [⟨tabId, attemptId, none, .reading, false⟩] } := by
  have back : ∀ owner captured,
      Sends (browser.scripts ++ [⟨tabId, attemptId, none, .reading, false⟩]) owner captured →
      Sends browser.scripts owner captured := by
    intro owner captured sends
    have ⟨other, member, isAttempt, isCapture⟩ := sends
    rcases mem_append.1 member with old | new
    · exact ⟨other, old, isAttempt, isCapture⟩
    · rw [mem_singleton.1 new] at isCapture
      cases isCapture
  apply separate.grow
  · intro owner captured sends
    have ⟨other, member, same⟩ := sends
    exact ⟨other, mem_append_left _ member, same⟩
  · exact fun _ _ => id
  · intro other member isReading
    rcases mem_append.1 member with old | new
    · exact separate.reading other old isReading
    · rw [mem_singleton.1 new]
  · exact fun _ _ _ _ sends sends' same =>
      separate.unique _ _ _ _ (back _ _ sends) (back _ _ sends') same

theorem Separate.respond {browser : Browser} (separate : Separate browser) (index : Nat)
    (stage : Stage) : Separate (respond browser index stage) := by
  unfold Capture.respond
  cases found : browser.scripts[index]? with
  | none => exact separate
  | some script =>
    simp only
    split_ifs
    · refine separate.setScript found rfl rfl fun isReading => ?_
      show script.stage = .reading
      have advanced : script.advanced = .reading := isReading
      unfold Script.advanced at advanced
      split at advanced
      · split_ifs at advanced
      · cases advanced
      · cases advanced
      · exact advanced
    · exact separate

end Scripts

/-! ### Claims and bindings -/

section Claims

variable {browser : Browser}

theorem Separate.claimAttempt (separate : Separate browser) (tabId : Nat) (tags : List String) :
    Separate (claimAttempt browser tabId tags).1 := by
  unfold Capture.claimAttempt
  simp only
  split_ifs
  · exact separate
  · have claimed : Separate { browser with claims := browser.claims ++ [tags] } :=
      separate.grow (fun _ _ => id) (fun _ _ tagged => tagged.append [tags]) separate.reading
        separate.unique
    apply claimed.setStatus
    intro status isStatus
    rw [← some.inj isStatus]
    exact ⟨tags, 0, by simp, rfl⟩

def BindsOwn (browser : Browser) (tabId attemptId : Nat) (captureId : String) : Prop :=
  browser.captureAttempts captureId = none → ∀ current, browser.statuses tabId = some current →
    current.phase.isTerminal = false → current.attemptId = attemptId

instance (browser : Browser) (tabId attemptId : Nat) (captureId : String) :
    Decidable (BindsOwn browser tabId attemptId captureId) :=
  decidable_of_iff (browser.captureAttempts captureId = none →
      (browser.statuses tabId).all (fun current =>
        current.phase.isTerminal || current.attemptId = attemptId) = true) (by
    unfold BindsOwn
    cases browser.statuses tabId <;> simp [Bool.or_eq_true, ← Bool.not_eq_true, or_iff_not_imp_left])

theorem bind_own (separate : Separate browser) {tabId attemptId : Nat} {captured : Captured}
    (sends : Sends browser.scripts attemptId captured)
    (own : BindsOwn browser tabId attemptId captured.captureId) :
    ∃ captureAttempts, ∃ result, bindCaptureToCurrentAttempt browser tabId captured.captureId
          = ({ browser with captureAttempts }, result)
        ∧ Separate { browser with captureAttempts }
        ∧ ∀ bound, result = some bound →
          bound.attemptId = attemptId ∧ Tagged browser.claims bound.attemptId bound.additionalTags := by
  unfold bindCaptureToCurrentAttempt
  cases isBound : browser.captureAttempts captured.captureId with
  | some existing =>
    refine ⟨browser.captureAttempts, _, rfl, separate, ?_⟩
    intro bound isResult
    have same : existing = bound := by
      split_ifs at isResult
      exact some.inj isResult
    rw [← same]
    have ⟨tagged, other, isSent, isId⟩ := separate.bound _ existing isBound
    exact ⟨(separate.unique _ _ _ _ isSent sends isId).1, tagged⟩
  | none =>
    cases found : browser.statuses tabId with
    | none => exact ⟨browser.captureAttempts, none, rfl, separate, fun _ isSome => nomatch isSome⟩
    | some current =>
      simp only
      split_ifs with terminal
      · exact ⟨browser.captureAttempts, none, rfl, separate, fun _ isSome => nomatch isSome⟩
      · have isOwn := own isBound current found (by simpa using terminal)
        have tagged := separate.statuses tabId current found
        refine ⟨_, _, rfl, ?_, ?_⟩
        · refine { separate with bound := fun captureId attempt isAttempt => ?_ }
          by_cases same : captureId = captured.captureId
          · simp only [same, update_self] at isAttempt
            rw [← some.inj isAttempt]
            exact ⟨tagged, captured, isOwn ▸ sends, same.symm⟩
          · simp only [update_of_ne same] at isAttempt
            exact separate.bound captureId attempt isAttempt
        · intro bound isResult
          rw [← some.inj isResult]
          exact ⟨isOwn, tagged⟩

end Claims

/-! ### Messages -/

def others (attemptId : Nat) (status : Option CaptureStatus) : Option (Nat × CapturePhase) :=
  (status.filter fun current => current.attemptId ≠ attemptId).map fun current =>
    (current.attemptId, current.phase)

def LeavesOthers (attemptId : Nat) (before after : Browser) : Prop :=
  ∀ tabId, others attemptId (after.statuses tabId) = others attemptId (before.statuses tabId)

structure Turned (attemptId : Nat) (before after : Browser) : Prop where
  separate : Separate after
  leaves : LeavesOthers attemptId before after

section Messages

variable {before browser : Browser} {attemptId : Nat}

theorem others_own {status : CaptureStatus} (own : status.attemptId = attemptId) :
    others attemptId (some status) = none := by
  simp [others, own]

variable (turned : Turned attemptId before browser)

include turned

theorem Turned.answer (sender : Sender) :
    Turned attemptId before (browser.answer sender) :=
  ⟨turned.separate.answer sender, turned.leaves⟩

theorem Turned.addTask {task : Task} (own : TaskOwn browser.scripts browser.claims task) :
    Turned attemptId before (browser.addTask task) :=
  ⟨turned.separate.addTask own, turned.leaves⟩

theorem Turned.cleanup (captureId : String) :
    Turned attemptId before (cleanup browser captureId) :=
  ⟨turned.separate.cleanup captureId, turned.leaves⟩

theorem Turned.reportPhase (tabId : Nat) (phase : CapturePhase) (detail : String)
    (extra : CaptureStatusExtra) :
    Turned attemptId before (reportPhase browser tabId attemptId phase detail extra).1 := by
  refine ⟨turned.separate.reportPhase tabId attemptId phase detail extra, ?_⟩
  intro other
  rw [← turned.leaves other]
  unfold Capture.reportPhase
  cases found : browser.statuses tabId with
  | none => rfl
  | some current =>
    simp only
    split_ifs with isOther
    · rfl
    · have isOwn : current.attemptId = attemptId := not_not.1 isOther
      show others attemptId (update browser.statuses tabId _ other) = _
      by_cases same : other = tabId
      · rw [same, update_self, found, others_own isOwn]
        exact others_own isOwn
      · rw [update_of_ne same]

omit turned

theorem reportPhase_scripts (browser : Browser) (tabId attemptId : Nat) (phase : CapturePhase)
    (detail : String) (extra : CaptureStatusExtra) :
    (reportPhase browser tabId attemptId phase detail extra).1.scripts = browser.scripts
      ∧ (reportPhase browser tabId attemptId phase detail extra).1.claims = browser.claims := by
  unfold reportPhase
  split
  · exact ⟨rfl, rfl⟩
  · split_ifs
    · exact ⟨rfl, rfl⟩
    · exact ⟨rfl, rfl⟩

variable {captured : Captured} {sender : Sender}

theorem turned_handleMeta (separate : Separate browser)
    (sends : Sends browser.scripts attemptId captured)
    (own : BindsOwn browser sender.tabId attemptId captured.captureId) :
    Turned attemptId browser (handleMeta browser sender captured.captureId captured.metadata) := by
  have ⟨captureAttempts, result, isBind, bindSeparate, isOwn⟩ := bind_own separate sends own
  have bound : Turned attemptId browser { browser with captureAttempts } :=
    ⟨bindSeparate, fun _ => rfl⟩
  unfold handleMeta
  rw [isBind]
  cases result with
  | none => exact bound.answer sender
  | some captureAttempt =>
    have same := (isOwn captureAttempt rfl).1
    have reported := bound.reportPhase sender.tabId .processing (describePhase .processing) {}
    have kept := reportPhase_scripts { browser with captureAttempts } sender.tabId attemptId
      .processing (describePhase .processing) {}
    simp only [same]
    generalize Capture.reportPhase { browser with captureAttempts } sender.tabId attemptId
      .processing (describePhase .processing) {} = report at reported kept ⊢
    have ⟨after, revision⟩ := report
    cases revision with
    | none => exact reported.answer sender
    | some updatedAt =>
      refine reported.addTask ⟨attemptId, captured, ?_, rfl, rfl⟩
      rw [kept.1]
      exact sends

theorem turned_completeCapture (turned : Turned attemptId before browser)
    {captureAttempt : CaptureAttempt} {tabId : Nat} {metadata : Option CaptureMetadata}
    (isOwn : captureAttempt.attemptId = attemptId)
    (tagged : Tagged browser.claims captureAttempt.attemptId captureAttempt.additionalTags)
    (sends : Sends browser.scripts attemptId captured)
    (known : ∀ found, metadata = some found → found = captured.metadata) :
    Turned attemptId before
      (completeCapture browser sender captureAttempt tabId metadata captured.snapshotHtml) := by
  unfold completeCapture
  rw [isOwn] at tagged ⊢
  cases metadata with
  | none => exact (turned.reportPhase tabId _ _ _).answer sender
  | some found =>
    simp only
    split_ifs
    · exact (turned.reportPhase tabId _ _ _).answer sender
    · apply Turned.answer
      have queued : Turned attemptId before
          { browser with inFlight := browser.inFlight ++ [found.url] } :=
        ⟨{ turned.separate with }, turned.leaves⟩
      refine queued.addTask ⟨⟨captured, sends, (known found rfl).symm, rfl⟩, tagged⟩

variable (separate : Separate browser) (sends : Sends browser.scripts attemptId captured)

include separate sends

theorem Separate.accept {index : Nat} (below : index < chunkTotal captured.snapshotHtml) :
    Separate { browser with
        buffers := (accept browser.buffers
          (chunkAt captured.captureId captured.snapshotHtml index)).1 }
      ∧ ∀ whole, (accept browser.buffers
          (chunkAt captured.captureId captured.snapshotHtml index)).2 = .ok (some whole) →
        whole = captured.snapshotHtml := by
  have holds : ∀ buffer, browser.buffers captured.captureId = some buffer →
      Holds captured.snapshotHtml buffer := by
    intro buffer isBuffer
    have ⟨owner, other, isSent, isId, isHeld⟩ := separate.buffers _ buffer isBuffer
    rw [← (separate.unique _ _ _ _ isSent sends isId).2]
    exact isHeld
  refine ⟨{ separate with buffers := fun captureId buffer isBuffer => ?_ },
    fun whole returned => accept_whole below holds returned⟩
  by_cases same : captureId = captured.captureId
  · rw [same] at isBuffer
    exact ⟨attemptId, captured, sends, same.symm, accept_holds below holds buffer isBuffer⟩
  · simp only at isBuffer
    rw [accept_other same] at isBuffer
    exact separate.buffers captureId buffer isBuffer

theorem Separate.known {metadata : CaptureMetadata}
    (isKnown : browser.metadataOf captured.captureId = some metadata) :
    metadata = captured.metadata := by
  have ⟨owner, other, isSent, isId, isMetadata⟩ := separate.metadata _ metadata isKnown
  rw [← isMetadata, (separate.unique _ _ _ _ isSent sends isId).2]

theorem turned_handleChunk (own : BindsOwn browser sender.tabId attemptId captured.captureId)
    {index : Nat} (below : index < chunkTotal captured.snapshotHtml) :
    Turned attemptId browser
      (handleChunk browser sender (chunkAt captured.captureId captured.snapshotHtml index)) := by
  have ⟨captureAttempts, result, isBind, bindSeparate, isOwn⟩ := bind_own separate sends own
  have bound : Turned attemptId browser { browser with captureAttempts } :=
    ⟨bindSeparate, fun _ => rfl⟩
  have isBind' : bindCaptureToCurrentAttempt browser sender.tabId
      (chunkAt captured.captureId captured.snapshotHtml index).captureId
        = ({ browser with captureAttempts }, result) := isBind
  unfold handleChunk
  rw [isBind']
  cases result with
  | none => exact bound.answer sender
  | some captureAttempt =>
    have ⟨same, tagged⟩ := isOwn captureAttempt rfl
    have ⟨accepted, isWhole⟩ := bindSeparate.accept sends below
    simp only [same] at accepted isWhole ⊢
    generalize Capture.accept browser.buffers
      (chunkAt captured.captureId captured.snapshotHtml index) = outcome at accepted isWhole ⊢
    have ⟨buffers, answer⟩ := outcome
    cases answer with
    | error reason =>
      exact ((bound.cleanup captured.captureId).reportPhase sender.tabId _ _ _).answer sender
    | ok completed =>
      cases completed with
      | none =>
        have reset : Turned attemptId browser
            (resetTimer { browser with captureAttempts, buffers } captured.captureId
              sender.tabId (browser.metadataOf captured.captureId)) := by
          refine ⟨accepted.resetTimer fun known isKnown => ?_, fun _ => rfl⟩
          exact ⟨attemptId, captured, sends, rfl, (separate.known sends isKnown).symm⟩
        exact (reset.reportPhase sender.tabId _ _ _).answer sender
      | some whole =>
        have isText : whole = captured.snapshotHtml := isWhole whole rfl
        simp only [isText]
        exact turned_completeCapture (bound.cleanup captured.captureId) same tagged sends
          fun found isKnown => separate.known sends isKnown

theorem turned_handleAbort {error : String}
    (own : BindsOwn browser sender.tabId attemptId captured.captureId) :
    Turned attemptId browser (handleAbort browser sender captured.captureId error) := by
  have ⟨captureAttempts, result, isBind, bindSeparate, isOwn⟩ := bind_own separate sends own
  have bound : Turned attemptId browser { browser with captureAttempts } :=
    ⟨bindSeparate, fun _ => rfl⟩
  have cleaned := bound.cleanup captured.captureId
  unfold handleAbort
  rw [isBind]
  cases result with
  | none => exact cleaned.answer sender
  | some captureAttempt =>
    simp only [(isOwn captureAttempt rfl).1]
    apply Turned.answer
    apply Turned.reportPhase
    exact ⟨{ cleaned.separate with }, cleaned.leaves⟩

omit sends separate

def JustAborted (browser : Browser) (tabId : Nat) (error : String) : Prop :=
  ∃ marker, browser.recentAborts tabId = some marker ∧ browser.clock ≤ marker.expiresAt
    ∧ marker.error = error

def ErrsOwn (browser : Browser) (tabId attemptId : Nat) (error : String) : Prop :=
  JustAborted browser tabId error ∨ ∃ current, browser.statuses tabId = some current
      ∧ (current.attemptId = attemptId ∨ (current.phase = .error ∧ current.detail = error))

instance (browser : Browser) (tabId attemptId : Nat) (error : String) :
    Decidable (ErrsOwn browser tabId attemptId error) :=
  decidable_of_iff ((browser.recentAborts tabId).any (fun marker =>
        browser.clock ≤ marker.expiresAt && marker.error = error) = true
      ∨ (browser.statuses tabId).any (fun current =>
        current.attemptId = attemptId || (current.phase = .error && current.detail = error)) = true)
    (by simp [ErrsOwn, JustAborted, Option.any_eq_true])

theorem consumeMatchingAbortError_cases (browser : Browser) (tabId : Nat) (error : String) :
    ∃ recentAborts, ∃ consumed,
      consumeMatchingAbortError browser tabId error = ({ browser with recentAborts }, consumed) := by
  unfold consumeMatchingAbortError
  simp only
  split
  · exact ⟨browser.recentAborts, false, rfl⟩
  · split_ifs
    · exact ⟨_, false, rfl⟩
    · exact ⟨browser.recentAborts, false, rfl⟩
    · exact ⟨_, true, rfl⟩

theorem consume_justAborted {tabId : Nat} {error : String}
    (aborted : JustAborted browser tabId error) :
    (consumeMatchingAbortError browser tabId error).2 = true := by
  have ⟨marker, isMarker, inTime, sameError⟩ := aborted
  unfold consumeMatchingAbortError
  simp only [isMarker]
  rw [if_neg (Nat.not_lt.2 inTime), if_neg (not_not.2 sameError)]

theorem turned_handleError (separate : Separate browser) {error : String}
    (own : ErrsOwn browser sender.tabId attemptId error) :
    Turned attemptId browser (handleError browser sender error) := by
  have ⟨recentAborts, consumed, isConsumed⟩ :=
    consumeMatchingAbortError_cases browser sender.tabId error
  have looked : Turned attemptId browser { browser with recentAborts } :=
    ⟨{ separate with }, fun _ => rfl⟩
  unfold handleError
  rw [isConsumed]
  cases consumed with
  | true => exact looked.answer sender
  | false =>
    rcases own with aborted | ⟨current, found, meets⟩
    · have isTrue := consume_justAborted aborted
      rw [isConsumed] at isTrue
      cases isTrue
    · have found' : ({ browser with recentAborts } : Browser).statuses sender.tabId
          = some current := found
      simp only
      unfold reportUnconditionalError
      rw [found']
      simp only
      split_ifs with shown
      · exact looked.answer sender
      · rcases meets with isOwn | isShown
        · rw [isOwn]
          exact (looked.reportPhase sender.tabId _ _ _).answer sender
        · exact absurd isShown shown

def MessageOwn (browser : Browser) (script : Script) : Message → Prop
  | .captureMeta captureId _ => BindsOwn browser script.tabId script.attemptId captureId
  | .captureChunk chunk => BindsOwn browser script.tabId script.attemptId chunk.captureId
  | .captureAbort captureId _ => BindsOwn browser script.tabId script.attemptId captureId
  | .captureError error => ErrsOwn browser script.tabId script.attemptId error

instance (browser : Browser) (script : Script) : DecidablePred (MessageOwn browser script)
  | .captureMeta _ _ => inferInstanceAs (Decidable (BindsOwn _ _ _ _))
  | .captureChunk _ => inferInstanceAs (Decidable (BindsOwn _ _ _ _))
  | .captureAbort _ _ => inferInstanceAs (Decidable (BindsOwn _ _ _ _))
  | .captureError _ => inferInstanceAs (Decidable (ErrsOwn _ _ _ _))

theorem turned_handleMessage (separate : Separate browser) {script : Script} {index : Nat}
    {stage : Stage} {message : Message} (member : script ∈ browser.scripts)
    (isMessage : ({ script with stage } : Script).message = some message)
    (own : MessageOwn browser script message) :
    Turned script.attemptId browser (handleMessage browser ⟨index, stage, script.tabId⟩ message) := by
  unfold Script.message at isMessage
  simp only at isMessage
  split at isMessage
  · rename_i captured isCapture
    rw [← some.inj isMessage] at own ⊢
    exact turned_handleMeta separate ⟨script, member, rfl, isCapture⟩ own
  · rename_i sent captured isCapture
    have ⟨chunk, isChunk, isSome⟩ := map_eq_some_iff.1 isMessage
    have ⟨below, isAt⟩ := List.getElem?_eq_some_iff.1 isChunk
    have inRange : sent < chunkTotal captured.snapshotHtml := by
      simpa [splitIntoChunks] using below
    have isChunkAt : chunk = chunkAt captured.captureId captured.snapshotHtml sent := by
      rw [← isAt]
      simp [splitIntoChunks]
    rw [← isSome, isChunkAt] at own ⊢
    have binds : BindsOwn browser script.tabId script.attemptId captured.captureId := own
    exact turned_handleChunk separate ⟨script, member, rfl, isCapture⟩ binds inRange
  · rename_i error captured isCapture
    rw [← some.inj isMessage] at own ⊢
    exact turned_handleAbort separate ⟨script, member, rfl, isCapture⟩ own
  · rw [← some.inj isMessage] at own ⊢
    exact turned_handleError separate own
  · cases isMessage

end Messages

/-! ### Tasks -/

section Tasks

variable {browser next : Browser}

theorem Separate.finished (separate : Separate browser) (upload : Upload) :
    Separate (finished browser upload) :=
  separate.addTask trivial

theorem Separate.setInFlight (separate : Separate browser) (inFlight : List String) :
    Separate { browser with inFlight } :=
  { separate with }

theorem separate_runTask (separate : Separate browser) {task : Task} {outcome : Outcome}
    (own : TaskOwn browser.scripts browser.claims task)
    (runs : runTask browser outcome task = some next) : Separate next := by
  cases task with
  | fetchTab tabId attemptId =>
    simp only [runTask] at runs
    split at runs
    · split_ifs at runs
      · rw [← some.inj runs]
        exact separate.addTask trivial
      · rw [← some.inj runs]
        exact separate
    · rw [← some.inj runs]
      exact separate.reportPhase _ _ _ _ _
    · cases runs
  | executeScript tabId attemptId =>
    simp only [runTask] at runs
    split at runs
    · rw [← some.inj runs]
      exact separate.inject tabId attemptId
    · rw [← some.inj runs]
      exact separate.reportPhase _ _ _ _ _
    · cases runs
  | acceptMetadata index stage tabId attemptId updatedAt captureId metadata =>
    simp only [runTask] at runs
    rw [← some.inj runs]
    apply Separate.respond
    split_ifs
    · apply separate.resetTimer
      intro known isKnown
      rw [← some.inj isKnown]
      exact own
    · exact separate
  | claimedError index stage tabId detail => exact own.elim
  | respond index stage =>
    rw [← some.inj runs]
    exact separate.respond index stage
  | loadSettings tabId upload =>
    simp only [runTask] at runs
    split at runs
    · have reported := separate.reportPhase tabId upload.attemptId .uploading
        (describePhase .uploading) {}
      have kept := reportPhase_scripts browser tabId upload.attemptId .uploading
        (describePhase .uploading) {}
      generalize reportPhase browser tabId upload.attemptId .uploading
        (describePhase .uploading) {} = report at reported kept runs
      have ⟨after, revision⟩ := report
      cases revision with
      | none =>
        rw [← some.inj runs]
        exact reported.finished upload
      | some updatedAt =>
        rw [← some.inj runs]
        apply reported.addTask
        show Genuine after.scripts after.claims upload
        rw [kept.1, kept.2]
        exact own
    · rw [← some.inj runs]
      exact (separate.reportPhase _ _ _ _ _).finished upload
    · cases runs
  | reportUploading tabId updatedAt upload =>
    simp only [runTask] at runs
    split at runs
    · split_ifs at runs
      · rw [← some.inj runs]
        have uploaded : Separate { browser with uploads := browser.uploads ++ [upload] } := by
          refine { separate with uploads := fun other member => ?_ }
          rcases mem_append.1 member with old | new
          · exact separate.uploads other old
          · rw [mem_singleton.1 new]
            exact own
        exact uploaded.addTask own
      · rw [← some.inj runs]
        exact separate.finished upload
    · rw [← some.inj runs]
      exact (separate.reportPhase _ _ _ _ _).finished upload
    · cases runs
  | ingestArchive tabId upload =>
    simp only [runTask] at runs
    split at runs
    · cases runs
    · rw [← some.inj runs]
      exact (separate.reportPhase _ _ _ _ _).finished upload
  | release url =>
    rw [← some.inj runs]
    exact separate.setInFlight _

end Tasks

/-! ### Timers, tabs and restarts -/

section Other

variable {browser : Browser}

theorem Separate.expire (separate : Separate browser) (captureId : String)
    (transfer : PendingTransfer) : Separate (expire browser captureId transfer) := by
  unfold Capture.expire
  simp only
  split
  · exact separate.cleanup captureId
  · split_ifs
    · exact separate.cleanup captureId
    · exact (separate.cleanup captureId).reportPhase _ _ _ _ _

theorem Separate.recover (separate : Separate browser) (timer : Nat × Nat × Nat) :
    Separate (recover browser timer) := by
  unfold Capture.recover
  split
  · exact separate
  · split_ifs
    · exact separate.reportPhase _ _ _ _ _
    · exact separate

theorem Separate.removeTab (separate : Separate browser) (tabId : Nat) :
    Separate (removeTab browser tabId) := by
  unfold Capture.removeTab
  simp only
  refine Separate.setStatus ?_ (fun _ isSome => nomatch isSome)
  refine { separate with
    bound := fun captureId attempt isBound => ?_
    metadata := fun captureId metadata isKnown => ?_
    buffers := fun captureId buffer isBuffer => ?_ }
  · exact separate.bound captureId attempt (eq_some_of_filter_eq_some isBound)
  · simp only [Browser.metadataOf] at isKnown
    split_ifs at isKnown
    · cases isKnown
    · exact separate.metadata captureId metadata isKnown
  · simp only at isBuffer
    split_ifs at isBuffer
    exact separate.buffers captureId buffer isBuffer

theorem tagged_rehydrated {claims : List (List String)} {status : CaptureStatus} (clock : Nat)
    (tagged : Tagged claims status.attemptId status.additionalTags) :
    Tagged claims (rehydrated clock status).attemptId (rehydrated clock status).additionalTags := by
  unfold rehydrated
  simp only
  split_ifs
  · exact tagged.normalized
  · exact tagged.normalized

theorem Separate.restart (separate : Separate browser) (tabs : List Nat) (readable : Bool) :
    Separate (restart browser tabs readable) := by
  have tagged : StatusesTagged browser.claims fun tabId =>
      if readable then (browser.stored tabId).map (rehydrated browser.clock) else none := by
    intro tabId status isStatus
    simp only at isStatus
    split_ifs at isStatus
    · have ⟨old, isOld, isNew⟩ := map_eq_some_iff.1 isStatus
      rw [← isNew]
      exact tagged_rehydrated _ (separate.stored tabId old isOld)
  have written : ∀ snapshot ∈ (Capture.restart browser tabs readable).writes,
      StatusesTagged browser.claims snapshot := by
    intro snapshot member
    cases readable with
    | true =>
      rw [mem_singleton.1 member]
      exact tagged
    | false => cases member
  exact {
    separate with
    statuses := tagged
    writes := written
    bound := fun _ _ isBound => (nomatch isBound)
    metadata := fun _ _ isKnown => (nomatch isKnown)
    buffers := fun _ _ isBuffer => (nomatch isBuffer)
    tasks := fun _ member => (nomatch member) }

end Other

/-! ### Runs -/

def OwnMessage (browser : Browser) : Step → Prop
  | .deliver index => ∀ script message, browser.scripts[index]? = some script →
      script.message = some message → MessageOwn browser script message
  | _ => True

instance (browser : Browser) (taken : Step) : Decidable (OwnMessage browser taken) :=
  match taken with
  | .deliver index =>
    decidable_of_iff (∀ script ∈ browser.scripts[index]?, ∀ message ∈ script.message,
        MessageOwn browser script message)
      ⟨fun own script message found isMessage => own script found message isMessage,
        fun own script found message isMessage => own script message found isMessage⟩
  | .tick | .start _ _ | .read _ _ | .refuse _ _ _ | .sendFails _ _ | .resume _ _ | .expire _
  | .recover _ | .forgetAbort _ | .written _ | .removeTab _ | .restart _ _ => isTrue trivial

/-- The script whose message a step handles, also behind an `await`. -/
def sender (browser : Browser) : Step → Option Script
  | .deliver index => browser.scripts[index]?
  | .resume index _ =>
    match browser.tasks[index]? with
    | some (.acceptMetadata script _ _ _ _ _ _) => browser.scripts[script]?
    | some (.claimedError script _ _ _) => browser.scripts[script]?
    | some (.respond script _) => browser.scripts[script]?
    | _ => none
  | _ => none

section Steps

variable {browser next : Browser} {taken : Step}

theorem turned_deliver (separate : Separate browser) {index : Nat} {script : Script}
    (found : browser.scripts[index]? = some script) (own : OwnMessage browser (.deliver index))
    (steps : step browser (.deliver index) = some next) :
    Turned script.attemptId browser next := by
  simp only [step, found] at steps
  split_ifs at steps
  cases isMessage : script.message with
  | none => simp [isMessage] at steps
  | some message =>
    simp only [isMessage] at steps
    rw [← some.inj steps]
    have waiting : Separate (browser.setScript index { script with awaiting := true }) :=
      separate.setScript found rfl rfl id
    have member : { script with awaiting := true }
        ∈ (browser.setScript index { script with awaiting := true }).scripts :=
      mem_set (List.getElem?_eq_some_iff.1 found).1 _
    have meets : MessageOwn (browser.setScript index { script with awaiting := true })
        { script with awaiting := true } message := by
      have before := own script message found isMessage
      cases message with
      | captureMeta | captureChunk | captureAbort | captureError => exact before
    have handled := @turned_handleMessage _ waiting _ index script.stage message member isMessage
      meets
    exact ⟨handled.separate, handled.leaves⟩

theorem separate_step (separate : Separate browser) (own : OwnMessage browser taken)
    (steps : step browser taken = some next) : Separate next := by
  cases taken with
  | tick =>
    rw [← some.inj steps]
    exact { separate with }
  | start tabId tags =>
    have claimed := separate.claimAttempt tabId (normalizeCaptureTags tags)
    simp only [step] at steps
    generalize claimAttempt browser tabId (normalizeCaptureTags tags) = claim at claimed steps
    have ⟨after, started⟩ := claim
    cases started with
    | none =>
      rw [← some.inj steps]
      exact claimed
    | some attemptId =>
      rw [← some.inj steps]
      exact claimed.addTask trivial
  | read index capture =>
    simp only [step] at steps
    cases found : browser.scripts[index]? with
    | none => simp [found] at steps
    | some script =>
      simp only [found] at steps
      split_ifs at steps with ready
      rw [← some.inj steps]
      exact separate.read found ready.1 ready.2 (by simp)
  | refuse index error thrown =>
    simp only [step] at steps
    cases found : browser.scripts[index]? with
    | none => simp [found] at steps
    | some script =>
      simp only [found] at steps
      split_ifs at steps
      rw [← some.inj steps]
      exact separate.setScript found rfl rfl (fun isReading => nomatch isReading)
  | deliver index =>
    cases found : browser.scripts[index]? with
    | none => simp [step, found] at steps
    | some script => exact (turned_deliver separate found own steps).separate
  | sendFails index error =>
    simp only [step] at steps
    cases found : browser.scripts[index]? with
    | none => simp [found] at steps
    | some script =>
      simp only [found] at steps
      rw [← some.inj steps]
      refine separate.setScript found rfl rfl fun isReading => ?_
      have failed : script.failed error = .reading := isReading
      unfold Script.failed at failed
      split at failed
      · cases failed
      · cases failed
      · cases failed
      · cases failed
      · exact failed
  | resume index outcome =>
    simp only [step] at steps
    cases found : browser.tasks[index]? with
    | none => simp [found] at steps
    | some task =>
      simp only [found] at steps
      have taken : Separate { browser with tasks := browser.tasks.eraseIdx index } :=
        { separate with
          tasks := fun other member => separate.tasks other (mem_of_mem_eraseIdx member) }
      exact separate_runTask taken (separate.tasks task (mem_of_getElem? found)) steps
  | expire captureId =>
    simp only [step] at steps
    split at steps
    · cases steps
    · rw [← some.inj steps]
      exact separate.expire captureId _
  | recover index =>
    simp only [step] at steps
    split at steps
    · cases steps
    · rw [← some.inj steps]
      apply Separate.recover
      exact { separate with }
  | forgetAbort tabId =>
    simp only [step] at steps
    split at steps
    · cases steps
    · split_ifs at steps
      rw [← some.inj steps]
      exact { separate with }
  | written stored =>
    simp only [step] at steps
    cases isWrites : browser.writes with
    | nil => simp [isWrites] at steps
    | cons snapshot rest =>
      simp only [isWrites] at steps
      rw [← some.inj steps]
      have first := separate.writes snapshot (by simp [isWrites])
      refine { separate with stored := ?_, writes := fun other member => ?_ }
      · cases stored with
        | true => exact first
        | false => exact separate.stored
      · exact separate.writes other (by simp [isWrites, member])
  | removeTab tabId =>
    rw [← some.inj steps]
    exact separate.removeTab tabId
  | restart tabs readable =>
    rw [← some.inj steps]
    exact separate.restart tabs readable

theorem separate_initial : Separate Browser.initial := by
  constructor
  all_goals simp [Browser.initial, StatusesTagged, Browser.metadataOf, Sends]

theorem respond_statuses (browser : Browser) (index : Nat) (stage : Stage) :
    (respond browser index stage).statuses = browser.statuses := by
  unfold respond
  split
  · rfl
  · split_ifs <;> rfl

theorem leavesOthers_step (separate : Separate browser) (own : OwnMessage browser taken)
    {script : Script} (isSender : sender browser taken = some script)
    (steps : step browser taken = some next) : LeavesOthers script.attemptId browser next := by
  unfold sender at isSender
  split at isSender
  · exact (turned_deliver separate isSender own steps).leaves
  · rename_i index outcome
    simp only [step] at steps
    split at isSender
    · rename_i isTask
      simp only [isTask, runTask] at steps
      rw [← some.inj steps]
      intro tabId
      rw [respond_statuses]
      split_ifs <;> rfl
    · rename_i isTask
      exact (separate.tasks _ (mem_of_getElem? isTask)).elim
    · rename_i isTask
      simp only [isTask, runTask] at steps
      rw [← some.inj steps]
      intro tabId
      rw [respond_statuses]
    · cases isSender
  · cases isSender

end Steps

/-- While every message meets its own attempt, uploads are genuine and other attempts untouched. -/
theorem attempts_stay_apart {steps : List Step} {final : Browser}
    (own : Throughout step OwnMessage Browser.initial steps)
    (runs : run step Browser.initial steps = some final) :
    (∀ upload ∈ final.uploads, Genuine final.scripts final.claims upload)
      ∧ ∀ taken script next, OwnMessage final taken → sender final taken = some script →
        step final taken = some next → LeavesOthers script.attemptId final next := by
  have separate : Separate final :=
    invariant_of_throughout (fun _ _ _ holds meets steps => separate_step holds meets steps)
      separate_initial own runs
  exact ⟨separate.uploads, fun taken script next meets isSender steps =>
    leavesOthers_step separate meets isSender steps⟩

def onePage : Captured :=
  ⟨"capture", ⟨"https://example.org/", none, "Page", none, none, 0, none, none, none, none, none⟩,
    [104, 105]⟩

def captureOnce : List Step :=
  [.start 7 [" #alpha ", "alpha"], .resume 0 .ok, .resume 0 .ok, .read 0 onePage, .deliver 0,
    .resume 0 .ok, .deliver 0, .resume 0 .ok, .resume 1 .ok]

/-- The worker restarts while a page is read; the page arrives in the next attempt. -/
def lateCapture : List Step :=
  [.start 7 ["alpha"], .resume 0 .ok, .resume 0 .ok, .written true, .restart [7] true, .recover 0,
    .start 7 ["beta"], .resume 0 .ok, .resume 0 .ok, .read 0 onePage, .deliver 0, .resume 0 .ok,
    .deliver 0, .resume 0 .ok, .resume 1 .ok]

def uploadsAfter (steps : List Step) : Option (List (Nat × List String) × List Nat) :=
  (run step Browser.initial steps).map fun browser =>
    (browser.uploads.map fun upload => (upload.attemptId, upload.additionalTags),
      (browser.scripts.filter fun script => script.capture.isSome).map Script.attemptId)

theorem attempts_stay_apart_once : Throughout step OwnMessage Browser.initial captureOnce
      ∧ ∃ final, run step Browser.initial captureOnce = some final
        ∧ final.uploads.map (fun upload => (upload.attemptId, upload.additionalTags))
          = [(0, ["alpha"])]
        ∧ ∀ upload ∈ final.uploads, Genuine final.scripts final.claims upload := by
  have own : Throughout step OwnMessage Browser.initial captureOnce := by decide
  have after : uploadsAfter captureOnce = some ([(0, ["alpha"])], [0]) := by decide
  have ⟨final, runs, uploads⟩ := map_eq_some_iff.1 after
  exact ⟨own, final, runs, (Prod.mk.inj uploads).1, (attempts_stay_apart own runs).1⟩

/-- A page that the first attempt's script captured is uploaded under the second attempt. -/
theorem late_capture_uploaded_elsewhere :
    ¬∀ (steps : List Step) (final : Browser), run step Browser.initial steps = some final →
      (∀ upload ∈ final.uploads, Genuine final.scripts final.claims upload)
        ∧ ∀ taken script next, sender final taken = some script → step final taken = some next →
          LeavesOthers script.attemptId final next := by
  intro always
  have after : uploadsAfter lateCapture = some ([(1, ["beta"])], [0]) := by decide
  have ⟨final, runs, shown⟩ := map_eq_some_iff.1 after
  have ⟨uploads, captures⟩ := Prod.mk.inj shown
  have isUpload : (1, ["beta"]) ∈ final.uploads.map fun upload =>
      (upload.attemptId, upload.additionalTags) := by
    rw [uploads]
    exact mem_singleton_self _
  have ⟨upload, member, isPair⟩ := List.mem_map.1 isUpload
  have ⟨captured, ⟨script, isScript, isAttempt, isCapture⟩, _⟩ :=
    ((always lateCapture final runs).1 upload member).sent
  have isCaptured : script.attemptId ∈
      (final.scripts.filter fun script => script.capture.isSome).map Script.attemptId :=
    List.mem_map_of_mem (mem_filter.2 ⟨isScript, by rw [isCapture]; rfl⟩)
  rw [captures, isAttempt, (Prod.mk.inj isPair).1] at isCaptured
  exact absurd isCaptured (by decide)

end Clepsydra.Capture
