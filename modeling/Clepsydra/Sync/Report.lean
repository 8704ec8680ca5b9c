import Clepsydra.Sync.Resolve

/-!
Owns: a whole sync, which commits, pulls, folds, pushes, and may pull again; and its report.
-/

namespace Clepsydra.Sync

open Library Library.Fallible Vault List

/-! ### What the engine is answered -/

structure JournalMerge where
  folder : String
  date : String
  winner : String
  merged : List String

/-- What `merge_duplicate_journals` leaves. -/
structure JournalFold where
  worktree : String → Option Bytes
  merges : List JournalMerge
  warnings : List String

/-- Git beyond the single file: branch, status, commit ids and error texts; and the fold of
journals. -/
structure Git extends Tools where
  reference : String
  status : Repository → List String
  commitId : Repository → Nat
  describe : SyncError → String
  mergeDuplicateJournals : (String → Option Bytes) → JournalFold

/-- What `git merge --no-commit` does with the fetched branch. -/
inductive MergeAnswer where
  | fastForward (head : Nat) (worktree : String → Option Bytes) (index : Index)
  | stopped (clean : Bool) (theirs : Nat) (worktree : String → Option Bytes) (index : Index)
  | refused (status : Nat)

/-- Whether there is a remote, why the fetch fails, and how the merge goes. -/
structure PullAnswers where
  remote : Bool
  fetchFailure : Option String
  branch : Bool
  merge : MergeAnswer

inductive PushAnswer where
  | pushed
  | rejected (detail : String)
  | failed (detail : String)
  | broken

structure PushAnswers where
  remote : Bool
  ahead : Option Nat
  push : PushAnswer

structure Answers where
  firstPull : PullAnswers
  firstPush : PushAnswers
  secondPull : PullAnswers
  secondPush : PushAnswers

/-! ### Reports -/

structure CommitSummary where
  sha : Nat
  files : Nat

inductive MergeSummary where
  | noRemote
  | fetchFailed (detail : String)
  | notFetched
  | upToDate
  | fastForward (head : Nat)
  | merged (commit : Nat) (conflictCopies : List ConflictCopy)
deriving DecidableEq

inductive PushStatus where
  | notAttempted
  | nothingToPush
  | pushed
  | rejected (detail : String)
  | failed (detail : String)

structure SyncReport where
  committed : Option CommitSummary
  merge : MergeSummary
  push : PushStatus
  journalMerges : List JournalMerge
  warnings : List String

def MergeSummary.treeChanged : MergeSummary → Bool
  | .fastForward _ => true
  | .merged _ _ => true
  | _ => false

def MergeSummary.conflictCopies : MergeSummary → List ConflictCopy
  | .merged _ copies => copies
  | _ => []

/-- `SyncReport::tree_changed`. -/
def SyncReport.treeChanged (report : SyncReport) : Bool := report.merge.treeChanged

/-- `SyncReport::conflict_copies`. -/
def SyncReport.conflictCopies (report : SyncReport) : List ConflictCopy :=
  report.merge.conflictCopies

/-- `fold_merges`. -/
def foldMerges (first retry : MergeSummary) : MergeSummary :=
  match retry with
  | .merged commit copies => .merged commit (first.conflictCopies ++ copies)
  | .fastForward head => if first = .upToDate then .fastForward head else first
  | _ => first

/-! ### The steps -/

/-- `git commit`. -/
def Repository.commit (git : Git) (repository : Repository) : Except SyncError (Nat × Repository) :=
  if repository.unmerged = [] then
    let sha := git.commitId repository
    .ok (sha, { repository with head := some sha, mergeHead := none })
  else .error (.gitFailed "commit" "")

/-- `git add -A`. -/
def Repository.addAll (git : Git) (repository : Repository) : Repository :=
  (git.status repository).foldl (fun current path => current.addIncludingRemovals git.toTools path)
    repository

/-- `resolve_and_commit`; any failure aborts the merge and fails the sync. -/
def resolveAndCommit (git : Git) (repository : Repository) (conflicted : Bool) :
    Except SyncError (Nat × Resolution) := do
  let resolution ←
    (if conflicted then resolveUnmerged git.toTools repository else .ok ⟨repository, [], []⟩)
  let committed ← resolution.repository.commit git
  .ok (committed.1, { resolution with repository := committed.2 })

structure LeftoverMerge where
  summary : CommitSummary
  paths : List String

/-- `commit_leftover_merge`. -/
def commitLeftoverMerge (git : Git) (repository : Repository) :
    Except SyncError (Option LeftoverMerge × Repository) :=
  if repository.mergeHead.isNone ∧ repository.unmerged = [] then .ok (none, repository)
  else do
    let done ← resolveAndCommit git repository (repository.unmerged ≠ [])
    let paths := git.status repository ++ done.2.copies.map ConflictCopy.copy
    .ok (some ⟨⟨done.1, paths.length⟩, paths⟩, done.2.repository)

/-- `commit_local`. -/
def commitLocal (git : Git) (repository : Repository) :
    Except SyncError (Option CommitSummary × Repository) :=
  match repository.operation with
  | some operation => .error (.gitOperationInProgress operation)
  | none => do
      let leftover ← commitLeftoverMerge git repository
      let entries := git.status leftover.2
      if entries = [] then .ok (leftover.1.map LeftoverMerge.summary, leftover.2)
      else do
        let committed ← (leftover.2.addAll git).commit git
        let files := match leftover.1 with
          | some merge => (merge.paths ++ entries).dedup.length
          | none => entries.length
        .ok (some ⟨committed.1, files⟩, committed.2)

/-- The exit status of `git merge --no-commit` and the repository it leaves. -/
def mergeNoCommit (repository : Repository) : MergeAnswer → Nat × Repository
  | .fastForward head worktree index =>
    if repository.head = some head then (0, repository)
    else (0, { repository with head := some head, worktree := worktree, index := index })
  | .stopped clean theirs worktree index =>
    (if clean then 0 else 1,
      { repository with mergeHead := some theirs, worktree := worktree, index := index })
  | .refused status => (status, repository)

structure Pulled where
  summary : MergeSummary
  warnings : List String
  repository : Repository

/-- `pull_inner`. -/
def pullInner (git : Git) (answers : PullAnswers) (repository : Repository) :
    Except SyncError Pulled :=
  if answers.remote = false then .ok ⟨.noRemote, [], repository⟩
  else
    match answers.fetchFailure with
    | some detail => .ok ⟨.fetchFailed detail, [], repository⟩
    | none =>
      if answers.branch = false then .ok ⟨.upToDate, [], repository⟩
      else
        let out := mergeNoCommit repository answers.merge
        match out.1, out.2.mergeHead with
        | 0, none =>
          if out.2.head = repository.head then .ok ⟨.upToDate, [], out.2⟩
          else .ok ⟨.fastForward (out.2.head.getD 0), [], out.2⟩
        | 0, some _ => do
            let done ← resolveAndCommit git out.2 false
            .ok ⟨.merged done.1 done.2.copies, done.2.warnings, done.2.repository⟩
        | 1, some _ => do
            let done ← resolveAndCommit git out.2 true
            .ok ⟨.merged done.1 done.2.copies, done.2.warnings, done.2.repository⟩
        | status, _ => .error (.mergeFailed git.reference status)

def plural (count : Nat) : String := if count = 1 then "" else "s"

def foldWarning (git : Git) (folded : Nat) (failure : SyncError) : String :=
  "journal merge: folded " ++ toString folded ++ " duplicate journal page" ++ plural folded
    ++ " but could not commit the fold: " ++ git.describe failure

structure Folded where
  repository : Repository
  merges : List JournalMerge
  warnings : List String

/-- `merge_journals_after_pull`; only a pull that changed the tree is followed by a fold. -/
def mergeJournalsAfterPull (git : Git) (pulled : Pulled) : Folded :=
  if pulled.summary.treeChanged = false then ⟨pulled.repository, [], pulled.warnings⟩
  else
    let fold := git.mergeDuplicateJournals pulled.repository.worktree
    let repository := { pulled.repository with worktree := fold.worktree }
    let warnings := pulled.warnings ++ fold.warnings
    if fold.merges = [] then ⟨repository, [], warnings⟩
    else
      match (repository.addAll git).commit git with
      | .ok committed => ⟨committed.2, fold.merges, warnings⟩
      | .error failure =>
        ⟨repository.addAll git, fold.merges,
          warnings ++ [foldWarning git fold.merges.length failure]⟩

/-- `push`. -/
def push (answers : PushAnswers) : Except SyncError PushStatus :=
  if answers.remote = false then .ok .notAttempted
  else if answers.ahead = some 0 then .ok .nothingToPush
  else
    match answers.push with
    | .pushed => .ok .pushed
    | .rejected detail => .ok (.rejected detail)
    | .failed detail => .ok (.failed detail)
    | .broken => .error (.gitFailed "push" "")

structure RetryPull where
  merge : MergeSummary
  warnings : List String
  journalMerges : List JournalMerge

structure Pushed where
  status : PushStatus
  retried : Option RetryPull
  repository : Repository

/-- `push_with_retry_inner`. -/
def pushWithRetryInner (git : Git) (answers : Answers) (repository : Repository) :
    Except SyncError Pushed := do
  let first ← push answers.firstPush
  match first with
  | .rejected _ => do
      let pulled ← pullInner git answers.secondPull repository
      let folded := mergeJournalsAfterPull git pulled
      let second ← push answers.secondPush
      .ok ⟨second, some ⟨pulled.summary, folded.warnings, folded.merges⟩, folded.repository⟩
  | other => .ok ⟨other, none, repository⟩

/-- The end of `full_sync_inner`: what was pushed is folded into the report. -/
def finishReport (committed : Option CommitSummary) (merge : MergeSummary) (folded : Folded)
    (pushed : Pushed) : SyncReport :=
  match pushed.retried with
  | none => ⟨committed, merge, pushed.status, folded.merges, folded.warnings⟩
  | some retry =>
    ⟨committed, foldMerges merge retry.merge, pushed.status, folded.merges ++ retry.journalMerges,
      folded.warnings ++ retry.warnings⟩

/-- Whether `full_sync_inner` goes on to push. -/
def MergeSummary.pushes : MergeSummary → Bool
  | .noRemote => false
  | .fetchFailed _ => false
  | _ => true

/-- `full_sync`, which writes its first Conflict Copy after it started. -/
def fullSync (git : Git) (answers : Answers) (start : Repository) :
    Except SyncError (SyncReport × Repository) := do
  let committed ← commitLocal git { start with written := [] }
  let pulled ← pullInner git answers.firstPull committed.2
  let folded := mergeJournalsAfterPull git pulled
  let pushed ← (if pulled.summary.pushes then pushWithRetryInner git answers folded.repository
      else .ok ⟨.notAttempted, none, folded.repository⟩)
  .ok (finishReport committed.1 pulled.summary folded pushed, pushed.repository)

/-! ### A merge left in progress -/

/-- Every unmerged path already is as its resolution leaves it, with its own copy there. -/
def LeavesTree (tools : Tools) (start : Repository) : Prop :=
  ∀ before entry after, start.unmerged = before ++ entry :: after →
    (∀ side, keptSide tools start.worktree entry = some side →
      (∃ content, Copied tools start before entry.path content)
        ∨ start.worktree entry.path = some (tools.smudge entry.path side))
    ∧ ∀ copy content, copyOf tools start.worktree entry = some (copy, content) →
      start.worktree copy ≠ none

section Leftover

variable {tools : Tools} {start final : Repository}

theorem LeavesTree.copied_file (leaves : LeavesTree tools start) {done : List UnmergedEntry}
    (listed : ∀ entry ∈ done, entry ∈ start.unmerged) {path : String} {content : Bytes}
    (copied : Copied tools start done path content) :
    some ((start.worktree path).getD content) = start.worktree path := by
  have ⟨entry, member, copies⟩ := copied
  have ⟨before, after, isCut⟩ := append_of_mem (listed entry member)
  have present := (leaves before entry after isCut).2 path content copies
  have ⟨there, file⟩ := Option.ne_none_iff_exists'.1 present
  rw [file, Option.getD_some]

theorem Progress.worktree_eq (progress : Progress tools start start.unmerged final)
    (leaves : LeavesTree tools start) : final.worktree = start.worktree := by
  funext path
  rcases unsided_or_sided tools start start.unmerged path with unsided | sided
  · by_cases copied : ∃ content, Copied tools start start.unmerged path content
    · have ⟨content, isCopied⟩ := copied
      rw [progress.copies path unsided content isCopied]
      exact leaves.copied_file (fun _ member => member) isCopied
    · exact progress.files path unsided (not_exists.1 copied)
  · have ⟨entry, listed, isPath, side, isKept⟩ := sided
    have ⟨before, after, isCut⟩ := append_of_mem listed
    have ⟨ifCopied, ifNot⟩ := progress.sides before entry after isCut side isKept
    rw [← isPath]
    by_cases copied : ∃ content, Copied tools start before entry.path content
    · have ⟨content, isCopied⟩ := copied
      rw [ifCopied content isCopied]
      have inAll : ∀ other ∈ before, other ∈ start.unmerged := by
        intro other member
        rw [isCut]
        exact mem_append_left _ member
      exact leaves.copied_file inAll isCopied
    · rw [ifNot (not_exists.1 copied)]
      exact (((leaves before entry after isCut).1 side isKept).resolve_left copied).symm

theorem Progress.leavesTree (progress : Progress tools start start.unmerged final)
    (same : final.worktree = start.worktree) : LeavesTree tools start := by
  intro before entry after isCut
  have listed : entry ∈ start.unmerged := by
    rw [isCut]
    exact mem_append_right _ mem_cons_self
  constructor
  · intro side isKept
    by_cases copied : ∃ content, Copied tools start before entry.path content
    · exact .inl copied
    · right
      rw [← same]
      exact (progress.sides before entry after isCut side isKept).2 (not_exists.1 copied)
  · intro copy content copies absent
    have copied : Copied tools start start.unmerged copy content := ⟨entry, listed, copies⟩
    rw [← same] at absent
    rcases unsided_or_sided tools start start.unmerged copy with unsided | sided
    · rw [progress.copies copy unsided content copied] at absent
      cases absent
    · have ⟨other, otherListed, isCopy, side, isKept⟩ := sided
      have ⟨before', after', isCut'⟩ := append_of_mem otherListed
      have ⟨ifCopied, ifNot⟩ := progress.sides before' other after' isCut' side isKept
      rw [← isCopy] at absent
      by_cases copiedBefore : ∃ content, Copied tools start before' other.path content
      · have ⟨content', isCopied⟩ := copiedBefore
        rw [ifCopied content' isCopied] at absent
        cases absent
      · rw [ifNot (not_exists.1 copiedBefore)] at absent
        cases absent

end Leftover

/-! ### The copies a step writes -/

/-- What a step does to the files: it lists what it wrote, copies are new files, and no file goes
away. -/
structure Writes (before after : Repository) (copies : List ConflictCopy) : Prop where
  listed : ∀ copy ∈ after.written, copy ∈ before.written ∨ copy ∈ copies
  created : after.written = before.written
    ∨ ∃ path, before.worktree path = none ∧ after.worktree path ≠ none
  grows : ∀ path, before.worktree path ≠ none → after.worktree path ≠ none

theorem Writes.refl (repository : Repository) : Writes repository repository [] :=
  ⟨fun _ member => .inl member, .inl rfl, fun _ present => present⟩

theorem Writes.trans {first second third : Repository} {copies copies' : List ConflictCopy}
    (writes : Writes first second copies) (writes' : Writes second third copies') :
    Writes first third (copies ++ copies') := by
  refine ⟨?_, ?_, fun path present => writes'.grows path (writes.grows path present)⟩
  · intro copy member
    rcases writes'.listed copy member with earlier | isNew
    · exact (writes.listed copy earlier).imp_right (mem_append_left _)
    · exact .inr (mem_append_right _ isNew)
  · rcases writes'.created with same' | ⟨path, absent, present⟩
    · rcases writes.created with same | ⟨path, absent, present⟩
      · exact .inl (same'.trans same)
      · exact .inr ⟨path, absent, writes'.grows path present⟩
    · refine .inr ⟨path, ?_, present⟩
      by_contra wasThere
      exact writes.grows path wasThere absent

section Writing

variable {tools : Tools} {repository next : Repository} {path : String}

theorem writes_writeFile (content : Bytes) : Writes repository (repository.writeFile path content) [] := by
  refine ⟨fun _ member => .inl member, .inl rfl, fun other present => ?_⟩
  unfold Repository.writeFile
  by_cases here : other = path
  · simp [here]
  · simpa [here] using present

theorem writes_checkoutSide {side : Side}
    (checksOut : repository.checkoutSide tools side path = .ok next) : Writes repository next [] := by
  unfold Repository.checkoutSide at checksOut
  split at checksOut
  · cases checksOut
  · split_ifs at checksOut
    · rw [← Except.ok.inj checksOut]
      exact Writes.refl repository
    · rw [← Except.ok.inj checksOut]
      exact writes_writeFile _
  · split at checksOut
    · rw [← Except.ok.inj checksOut]
      exact writes_writeFile _
    · cases checksOut

theorem writes_add (adds : repository.add tools path = .ok next) : Writes repository next [] := by
  have ⟨sameFiles, sameWritten⟩ := worktree_add adds
  refine ⟨fun copy member => .inl (sameWritten ▸ member), .inl sameWritten, fun other present => ?_⟩
  rw [sameFiles]
  exact present

theorem writes_addIncludingRemovals :
    Writes repository (repository.addIncludingRemovals tools path) [] := by
  unfold Repository.addIncludingRemovals
  split
  · exact ⟨fun _ member => .inl member, .inl rfl, fun _ present => present⟩
  · exact ⟨fun _ member => .inl member, .inl rfl, fun _ present => present⟩

theorem writes_writeConflictCopy (theirs : Bytes) :
    Writes repository (repository.writeConflictCopy tools path theirs).1
      [(repository.writeConflictCopy tools path theirs).2] := by
  unfold Repository.writeConflictCopy
  simp only
  split
  · exact ⟨fun _ member => .inl member, .inl rfl, fun _ present => present⟩
  · rename_i absent
    refine ⟨fun copy member => ?_, .inr ⟨_, absent, ?_⟩, ?_⟩
    · simpa using member
    · simp [Repository.writeFile]
    · exact (writes_writeFile _).grows

theorem writes_resolveOne {side : Side} {resolution : Resolution}
    (ends : resolveOne tools repository side path = .ok resolution) :
    Writes repository resolution.repository resolution.copies := by
  have ⟨restored, checksOut, ends⟩ := of_bind_ok ends
  have ⟨added, adds, ends⟩ := of_bind_ok ends
  rw [← Except.ok.inj ends]
  exact (writes_checkoutSide checksOut).trans (writes_add adds)

theorem writes_resolveBoth {oid : Bytes} {resolution : Resolution}
    (ends : resolveBoth tools repository path oid = .ok resolution) :
    Writes repository resolution.repository resolution.copies := by
  have ⟨ours, _, ends⟩ := of_bind_ok ends
  have ⟨theirs, _, ends⟩ := of_bind_ok ends
  cases resolved : handResolved tools repository.worktree path ours oid with
  | true =>
    simp only [resolved] at ends
    have ⟨added, adds, ends⟩ := of_bind_ok ends
    rw [← Except.ok.inj ends]
    exact writes_add adds
  | false =>
    simp only [resolved] at ends
    have ⟨restored, checksOut, ends⟩ := of_bind_ok ends
    have restores := writes_checkoutSide checksOut
    by_cases same : ours = theirs
    · rw [if_pos same] at ends
      have ⟨added, adds, ends⟩ := of_bind_ok ends
      rw [← Except.ok.inj ends]
      exact restores.trans (writes_add adds)
    · rw [if_neg same] at ends
      by_cases pointer : isLfsPointer theirs = true
      · rw [if_pos pointer] at ends
        have ⟨added, adds, ends⟩ := of_bind_ok ends
        rw [← Except.ok.inj ends]
        exact restores.trans (writes_add adds)
      · rw [if_neg pointer] at ends
        have ⟨added, adds, ends⟩ := of_bind_ok ends
        have ⟨staged, addsCopy, ends⟩ := of_bind_ok ends
        rw [← Except.ok.inj ends]
        have copies : Writes repository (restored.writeConflictCopy tools path theirs).1
            ([] ++ [(restored.writeConflictCopy tools path theirs).2]) :=
          restores.trans (writes_writeConflictCopy theirs)
        have stages := (writes_add adds).trans (writes_add addsCopy)
        simpa using copies.trans stages

theorem writes_resolveEntry {entry : UnmergedEntry} {resolution : Resolution}
    (ends : resolveEntry tools repository entry = .ok resolution) :
    Writes repository resolution.repository resolution.copies := by
  unfold resolveEntry at ends
  split at ends
  · exact writes_resolveBoth ends
  · exact writes_resolveOne ends
  · exact writes_resolveOne ends
  · rw [← Except.ok.inj ends]
    exact writes_addIncludingRemovals

theorem writes_resolveEntries {rest : List UnmergedEntry} :
    ∀ {current final : Resolution}, Writes repository current.repository current.copies →
      resolveEntries tools current rest = .ok final →
      Writes repository final.repository final.copies := by
  induction rest with
  | nil =>
    intro current final writes ends
    rw [← Except.ok.inj ends]
    exact writes
  | cons entry rest ih =>
    intro current final writes ends
    have ⟨resolved, resolves, ends⟩ := of_bind_ok ends
    refine ih ?_ ends
    exact writes.trans (writes_resolveEntry resolves)

theorem writes_resolveUnmerged {final : Resolution}
    (ends : resolveUnmerged tools repository = .ok final) :
    Writes repository final.repository final.copies :=
  writes_resolveEntries (Writes.refl repository) ends

end Writing

/-! ### The tree after each step -/

section Steps

variable {git : Git} {start repository next : Repository}

theorem commit_ok {committed : Nat × Repository} (commits : repository.commit git = .ok committed) :
    committed.2.worktree = repository.worktree ∧ committed.2.written = repository.written := by
  unfold Repository.commit at commits
  split_ifs at commits
  rw [← Except.ok.inj commits]
  exact ⟨rfl, rfl⟩

theorem addAll_same : (repository.addAll git).worktree = repository.worktree
      ∧ (repository.addAll git).written = repository.written := by
  have fold : ∀ (paths : List String) (current : Repository),
      (paths.foldl (fun current path => current.addIncludingRemovals git.toTools path)
          current).worktree = current.worktree
        ∧ (paths.foldl (fun current path => current.addIncludingRemovals git.toTools path)
          current).written = current.written := by
    intro paths
    induction paths with
    | nil => exact fun _ => ⟨rfl, rfl⟩
    | cons path rest ih =>
      intro current
      have sameWritten : (current.addIncludingRemovals git.toTools path).written
          = current.written := by
        unfold Repository.addIncludingRemovals
        split <;> rfl
      have later := ih (current.addIncludingRemovals git.toTools path)
      exact ⟨later.1.trans worktree_addIncludingRemovals, later.2.trans sameWritten⟩
  exact fold _ repository

theorem resolveAndCommit_ok {conflicted : Bool} {done : Nat × Resolution}
    (ends : resolveAndCommit git repository conflicted = .ok done) :
    ∃ resolution : Resolution,
      (conflicted = true → resolveUnmerged git.toTools repository = .ok resolution)
        ∧ (conflicted = false → resolution = ⟨repository, [], []⟩)
        ∧ done.2.repository.worktree = resolution.repository.worktree
        ∧ done.2.repository.written = resolution.repository.written
        ∧ done.2.copies = resolution.copies := by
  have ⟨resolution, resolves, ends⟩ := of_bind_ok ends
  have ⟨committed, commits, ends⟩ := of_bind_ok ends
  rw [← Except.ok.inj ends]
  refine ⟨resolution, ?_, ?_, (commit_ok commits).1, (commit_ok commits).2, rfl⟩
  · intro isConflicted
    rw [isConflicted, if_pos rfl] at resolves
    exact resolves
  · intro notConflicted
    rw [notConflicted, if_neg (by decide)] at resolves
    exact (Except.ok.inj resolves).symm

theorem commitLeftoverMerge_ok {leftover : Option LeftoverMerge × Repository}
    (ends : commitLeftoverMerge git start = .ok leftover) :
    (LeavesTree git.toTools start ↔ leftover.2.worktree = start.worktree)
      ∧ (leftover.2.worktree = start.worktree → leftover.2.written = start.written) := by
  have noneLeft : start.unmerged = [] → LeavesTree git.toTools start := by
    intro isNil before entry after isCut
    rw [isNil] at isCut
    exact absurd isCut.symm (by simp)
  unfold commitLeftoverMerge at ends
  split_ifs at ends with nothing
  · rw [← Except.ok.inj ends]
    exact ⟨⟨fun _ => rfl, fun _ => noneLeft nothing.2⟩, fun _ => rfl⟩
  · have ⟨done, resolves, ends⟩ := of_bind_ok ends
    rw [← Except.ok.inj ends]
    have ⟨resolution, ifConflicted, ifNot, sameFiles, sameWritten, _⟩ := resolveAndCommit_ok resolves
    simp only
    rw [sameFiles, sameWritten]
    by_cases isNil : start.unmerged = []
    · have isSame := ifNot (by simp [isNil])
      rw [isSame]
      exact ⟨⟨fun _ => rfl, fun _ => noneLeft isNil⟩, fun _ => rfl⟩
    · have resolved := ifConflicted (by simp [isNil])
      have progress := progress_of_resolveUnmerged resolved
      refine ⟨⟨progress.worktree_eq, progress.leavesTree⟩, fun same => ?_⟩
      rcases (writes_resolveUnmerged resolved).created with sameRecord | ⟨path, absent, present⟩
      · exact sameRecord
      · rw [same] at present
        exact absurd absent present

theorem commitLocal_ok {committed : Option CommitSummary × Repository}
    (ends : commitLocal git start = .ok committed) :
    (LeavesTree git.toTools start ↔ committed.2.worktree = start.worktree)
      ∧ (committed.2.worktree = start.worktree → committed.2.written = start.written) := by
  unfold commitLocal at ends
  split at ends
  · cases ends
  · obtain ⟨leftover, finishes, ends⟩ := of_bind_ok ends
    have facts := commitLeftoverMerge_ok finishes
    simp only at ends
    split_ifs at ends
    · rw [← Except.ok.inj ends]
      exact facts
    · obtain ⟨committed', commits, ends⟩ := of_bind_ok ends
      rw [← Except.ok.inj ends]
      simp only
      rw [(commit_ok commits).1, (commit_ok commits).2, addAll_same.1, addAll_same.2]
      exact facts

structure Summarized (before after : Repository) (summary : MergeSummary) : Prop where
  fetched : summary ≠ .notFetched
  files : summary.treeChanged = false → after.worktree = before.worktree
  copies : ∀ copy ∈ after.written, copy ∈ before.written ∨ copy ∈ summary.conflictCopies

theorem summarized_unchanged (repository : Repository) {summary : MergeSummary}
    (fetched : summary ≠ .notFetched) : Summarized repository repository summary :=
  ⟨fetched, fun _ => rfl, fun _ member => .inl member⟩

theorem mergeNoCommit_written (answer : MergeAnswer) :
    (mergeNoCommit repository answer).2.written = repository.written := by
  unfold mergeNoCommit
  split
  · split_ifs <;> rfl
  · rfl
  · rfl

theorem mergeNoCommit_sameHead {answer : MergeAnswer}
    (noMerge : (mergeNoCommit repository answer).2.mergeHead = none)
    (sameHead : (mergeNoCommit repository answer).2.head = repository.head) :
    (mergeNoCommit repository answer).2.worktree = repository.worktree := by
  unfold mergeNoCommit at noMerge sameHead ⊢
  cases answer with
  | fastForward head worktree index =>
    simp only at sameHead ⊢
    split_ifs at sameHead ⊢ with isThere
    · rfl
    · exact absurd sameHead.symm isThere
  | stopped clean theirs worktree index => cases noMerge
  | refused status => rfl

theorem summarized_merged {conflicted : Bool} {done : Nat × Resolution}
    (sameWritten : repository.written = start.written)
    (ends : resolveAndCommit git repository conflicted = .ok done) :
    Summarized start done.2.repository (.merged done.1 done.2.copies) := by
  have ⟨resolution, ifConflicted, ifNot, _, written, copies⟩ := resolveAndCommit_ok ends
  refine ⟨by simp, fun unchanged => (nomatch unchanged), fun copy member => ?_⟩
  rw [written] at member
  rw [← sameWritten]
  show copy ∈ repository.written ∨ copy ∈ done.2.copies
  rw [copies]
  cases conflicted with
  | true => exact (writes_resolveUnmerged (ifConflicted rfl)).listed copy member
  | false =>
    rw [ifNot rfl] at member ⊢
    exact .inl member

theorem summarized_pullInner {answers : PullAnswers} {pulled : Pulled}
    (ends : pullInner git answers start = .ok pulled) :
    Summarized start pulled.repository pulled.summary := by
  unfold pullInner at ends
  by_cases noRemote : answers.remote = false
  · rw [if_pos noRemote] at ends
    rw [← Except.ok.inj ends]
    exact summarized_unchanged start (by simp)
  · rw [if_neg noRemote] at ends
    cases fetched : answers.fetchFailure with
    | some detail =>
      simp only [fetched] at ends
      rw [← Except.ok.inj ends]
      exact summarized_unchanged start (by simp)
    | none =>
      simp only [fetched] at ends
      by_cases noBranch : answers.branch = false
      · rw [if_pos noBranch] at ends
        rw [← Except.ok.inj ends]
        exact summarized_unchanged start (by simp)
      · rw [if_neg noBranch] at ends
        have sameWritten : (mergeNoCommit start answers.merge).2.written = start.written :=
          mergeNoCommit_written answers.merge
        split at ends
        · rename_i noMerge
          split_ifs at ends with sameHead
          · rw [← Except.ok.inj ends]
            exact ⟨by simp, fun _ => mergeNoCommit_sameHead noMerge sameHead,
              fun copy member => .inl (sameWritten ▸ member)⟩
          · rw [← Except.ok.inj ends]
            exact ⟨by simp, fun unchanged => (nomatch unchanged),
              fun copy member => .inl (sameWritten ▸ member)⟩
        · have ⟨done, resolves, ends⟩ := of_bind_ok ends
          rw [← Except.ok.inj ends]
          exact summarized_merged sameWritten resolves
        · have ⟨done, resolves, ends⟩ := of_bind_ok ends
          rw [← Except.ok.inj ends]
          exact summarized_merged sameWritten resolves
        · cases ends

theorem summarized_folded {pulled : Pulled}
    (summarized : Summarized start pulled.repository pulled.summary) :
    Summarized start (mergeJournalsAfterPull git pulled).repository pulled.summary := by
  unfold mergeJournalsAfterPull
  by_cases unchanged : pulled.summary.treeChanged = false
  · rw [if_pos unchanged]
    exact summarized
  · rw [if_neg unchanged]
    refine ⟨summarized.fetched, fun same => absurd same unchanged, fun copy member => ?_⟩
    apply summarized.copies copy
    simp only at member
    split_ifs at member
    · exact member
    · split at member
      · rename_i commits
        rw [(commit_ok commits).2, addAll_same.2] at member
        exact member
      · rw [addAll_same.2] at member
        exact member

theorem summarized_foldMerges {first retry : MergeSummary} (pushes : first.pushes = true)
    (summarized : Summarized start repository first) (summarized' : Summarized repository next retry) :
    Summarized start next (foldMerges first retry) := by
  have bothCopies : ∀ copy ∈ next.written,
      copy ∈ start.written ∨ copy ∈ first.conflictCopies ∨ copy ∈ retry.conflictCopies := by
    intro copy member
    rcases summarized'.copies copy member with earlier | isNew
    · exact (summarized.copies copy earlier).imp_right .inl
    · exact .inr (.inr isNew)
  have keepsFirst : retry.treeChanged = false → retry.conflictCopies = [] →
      Summarized start next first := by
    intro unchanged noCopies
    refine ⟨summarized.fetched, fun same => ?_, fun copy member => ?_⟩
    · rw [summarized'.files unchanged, summarized.files same]
    · have inEither := bothCopies copy member
      rw [noCopies] at inEither
      simpa using inEither
  cases retry with
  | merged commit copies =>
    refine ⟨by simp [foldMerges], fun unchanged => (nomatch unchanged), fun copy member => ?_⟩
    exact (bothCopies copy member).imp_right fun inEither => mem_append.2 inEither
  | fastForward head =>
    simp only [foldMerges]
    by_cases wasUpToDate : first = .upToDate
    · rw [if_pos wasUpToDate]
      refine ⟨by simp, fun unchanged => (nomatch unchanged), fun copy member => ?_⟩
      have inEither := bothCopies copy member
      rw [wasUpToDate] at inEither
      simpa [MergeSummary.conflictCopies] using inEither
    · rw [if_neg wasUpToDate]
      refine ⟨summarized.fetched, fun unchanged => ?_, fun copy member => ?_⟩
      · have fetched := summarized.fetched
        cases first with
        | noRemote | fetchFailed => cases pushes
        | notFetched => exact absurd rfl fetched
        | upToDate => exact absurd rfl wasUpToDate
        | fastForward | merged => cases unchanged
      · have inEither := bothCopies copy member
        simpa [MergeSummary.conflictCopies] using inEither
  | noRemote | fetchFailed | notFetched | upToDate => exact keepsFirst rfl rfl

theorem summarized_pushed {answers : Answers} {pushed : Pushed} {committed : Option CommitSummary}
    {merge : MergeSummary} {folded : Folded} (pushes : merge.pushes = true)
    (summarized : Summarized start folded.repository merge)
    (ends : pushWithRetryInner git answers folded.repository = .ok pushed) :
    Summarized start pushed.repository (finishReport committed merge folded pushed).merge := by
  have ⟨first, _, ends⟩ := of_bind_ok ends
  split at ends
  · have ⟨pulled, pulls, ends⟩ := of_bind_ok ends
    have ⟨second, _, ends⟩ := of_bind_ok ends
    rw [← Except.ok.inj ends]
    exact summarized_foldMerges pushes summarized (summarized_folded (summarized_pullInner pulls))
  · rw [← Except.ok.inj ends]
    exact summarized

theorem fullSync_ok {answers : Answers} {report : SyncReport} {final : Repository}
    (ends : fullSync git answers start = .ok (report, final)) :
    ∃ committed, commitLocal git { start with written := [] } = .ok committed
      ∧ Summarized committed.2 final report.merge := by
  have ⟨committed, commits, ends⟩ := of_bind_ok ends
  have ⟨pulled, pulls, ends⟩ := of_bind_ok ends
  have ⟨pushed, finishes, ends⟩ := of_bind_ok ends
  have ⟨isReport, isFinal⟩ := Prod.mk.inj (Except.ok.inj ends)
  refine ⟨committed, commits, ?_⟩
  rw [← isReport, ← isFinal]
  have folded : Summarized committed.2 (mergeJournalsAfterPull git pulled).repository pulled.summary :=
    summarized_folded (summarized_pullInner pulls)
  by_cases pushes : pulled.summary.pushes = true
  · rw [if_pos pushes] at finishes
    exact summarized_pushed pushes folded finishes
  · rw [if_neg pushes] at finishes
    rw [← Except.ok.inj finishes]
    exact folded

end Steps

/-! ### The report -/

def Admits (start : Repository) (report : SyncReport) (final : Repository) : Prop :=
  ((∃ path, final.worktree path ≠ start.worktree path) → report.treeChanged = true)
    ∧ ∀ copy ∈ final.written, copy ∈ report.conflictCopies

def offline : Answers :=
  let pull : PullAnswers := ⟨false, none, false, .refused 1⟩
  let push : PushAnswers := ⟨false, none, .broken⟩
  ⟨pull, push, pull, push⟩

theorem fullSync_offline {git : Git} {start : Repository}
    {committed : Option CommitSummary × Repository}
    (commits : commitLocal git { start with written := [] } = .ok committed) :
    ∃ report, fullSync git offline start = .ok (report, committed.2) ∧ report.treeChanged = false := by
  refine ⟨⟨committed.1, .noRemote, .notAttempted, [], []⟩, ?_, rfl⟩
  unfold fullSync
  rw [commits]
  rfl

/-- The report admits every change, exactly when a merge left in progress asks for none. -/
theorem report_admits_iff {git : Git} {start : Repository}
    {committed : Option CommitSummary × Repository}
    (commits : commitLocal git { start with written := [] } = .ok committed) :
    (∀ answers report final, fullSync git answers start = .ok (report, final) →
      Admits start report final)
      ↔ LeavesTree git.toTools start := by
  have ⟨leavesIff, noCopies⟩ := commitLocal_ok commits
  constructor
  · intro admits
    have ⟨report, ends, unchanged⟩ := fullSync_offline commits
    have admitted := (admits offline report committed.2 ends).1
    apply leavesIff.2
    funext path
    by_contra changed
    rw [admitted ⟨path, changed⟩] at unchanged
    cases unchanged
  · intro leaves answers report final ends
    have ⟨committed', commits', summarized⟩ := fullSync_ok ends
    have isSame : committed' = committed := Except.ok.inj (commits'.symm.trans commits)
    rw [isSame] at summarized
    have sameFiles := leavesIff.1 leaves
    refine ⟨fun ⟨path, changed⟩ => ?_, fun copy member => ?_⟩
    · by_contra unchanged
      have same := summarized.files (by simpa [SyncReport.treeChanged] using unchanged)
      exact changed (congrFun (same.trans sameFiles) path)
    · have written := summarized.copies copy member
      rw [noCopies sameFiles] at written
      exact written.resolve_left not_mem_nil

/-! ### Two leftovers -/

def plainGit : Git := { plainTools with
    reference := "origin/main"
    status := fun repository => repository.unmerged.map UnmergedEntry.path
    commitId := fun repository => repository.head.getD 0 + 1
    describe := fun _ => ""
    mergeDuplicateJournals := fun worktree => ⟨worktree, [], []⟩ }

/-- The merge of `oneConflict`, resolved by hand in the working tree. -/
def editedConflict : Repository := { oneConflict with worktree := files [("refs.bib", [118])] }

theorem editedConflict_leaves : LeavesTree plainGit.toTools editedConflict := by
  intro before entry after isCut
  have isOnly : ∀ entry ∈ editedConflict.unmerged,
      keptSide plainGit.toTools editedConflict.worktree entry = none
        ∧ copyOf plainGit.toTools editedConflict.worktree entry = none := by
    decide
  have member : entry ∈ editedConflict.unmerged := by
    rw [isCut]
    exact mem_append_right _ mem_cons_self
  have ⟨noSide, noCopy⟩ := isOnly entry member
  rw [noSide, noCopy]
  exact ⟨fun _ isNone => (nomatch isNone), fun _ _ isNone => (nomatch isNone)⟩

theorem report_admits_edited :
    ∃ report final, fullSync plainGit offline editedConflict = .ok (report, final)
      ∧ Admits editedConflict report final := by
  have succeeds : (commitLocal plainGit { editedConflict with written := [] }).isOk = true := by
    decide
  cases commits : commitLocal plainGit { editedConflict with written := [] } with
  | error failure =>
    rw [commits] at succeeds
    cases succeeds
  | ok committed =>
    have ⟨report, ends, _⟩ := fullSync_offline commits
    exact ⟨report, committed.2, ends,
      (report_admits_iff commits).2 editedConflict_leaves offline report committed.2 ends⟩

/-- A sync without a remote writes a Conflict Copy, and reports that the tree did not change. -/
theorem leftover_not_admitted :
    ¬∀ (git : Git) (answers : Answers) (start : Repository) (report : SyncReport)
      (final : Repository), fullSync git answers start = .ok (report, final) →
      Admits start report final := by
  intro always
  have after : (fullSync plainGit offline oneConflict).toOption.map
      (fun out => (out.1.treeChanged, out.2.worktree "refs.conflict.e3b98a4.bib"))
      = some (false, some [116]) := by
    decide
  cases ends : fullSync plainGit offline oneConflict with
  | error failure =>
    rw [ends] at after
    cases after
  | ok out =>
    rw [ends] at after
    have ⟨unchanged, file⟩ := Prod.mk.inj (Option.some.inj after)
    have changed : out.2.worktree "refs.conflict.e3b98a4.bib"
        ≠ oneConflict.worktree "refs.conflict.e3b98a4.bib" := by
      rw [file]
      decide
    have admitted := (always plainGit offline oneConflict out.1 out.2 ends).1 ⟨_, changed⟩
    rw [admitted] at unchanged
    cases unchanged

end Clepsydra.Sync
