import Clepsydra.Sync.Repository

/-!
Owns: what resolving the unmerged paths one after another does to each file.

Proves: both sides are kept exactly when no Conflict Copy is due where its own side should be.
-/

namespace Clepsydra.Sync

open Library Library.Fallible Vault List Function Option

/-! ### One path -/

variable {tools : Tools}

def needsCopy (tools : Tools) (worktree : String → Option Bytes) (entry : UnmergedEntry) :
    Option Bytes :=
  match entry.stages.ours, entry.stages.theirs with
  | some ours, some theirs =>
    if handResolved tools worktree entry.path ours ours ∨ ours = theirs ∨ isLfsPointer theirs then
      none
    else some theirs
  | _, _ => none

def copyOf (tools : Tools) (worktree : String → Option Bytes) (entry : UnmergedEntry) :
    Option (String × Bytes) :=
  (needsCopy tools worktree entry).map fun theirs =>
    (tools.ids.copyPath entry.path theirs,
      conflictCopyContent tools.format entry.path theirs (tools.ids.shortId theirs))

/-- The side that stays at the path; none for the user's own resolution. -/
def keptSide (tools : Tools) (worktree : String → Option Bytes) (entry : UnmergedEntry) :
    Option Bytes :=
  match entry.stages.ours, entry.stages.theirs with
  | some ours, some _ => if handResolved tools worktree entry.path ours ours then none else some ours
  | some ours, none => some ours
  | none, some theirs => some theirs
  | none, none => none

def settled (tools : Tools) (worktree : String → Option Bytes) (entry : UnmergedEntry) :
    Option Bytes :=
  match keptSide tools worktree entry with
  | some side => some (tools.smudge entry.path side)
  | none => worktree entry.path

def turnTree (tools : Tools) (worktree : String → Option Bytes) (entry : UnmergedEntry) :
    String → Option Bytes :=
  let restored := update worktree entry.path (settled tools worktree entry)
  match copyOf tools worktree entry with
  | none => restored
  | some (copy, content) => update restored copy (some ((worktree copy).getD content))

def Repository.AsStaged (tools : Tools) (repository : Repository) (path : String) : Prop :=
  repository.staging path
    = (repository.worktree path).map fun content => .merged (tools.clean path content)

def Turned (tools : Tools) (before after : Repository) (entry : UnmergedEntry) : Prop :=
  after.worktree = turnTree tools before.worktree entry ∧ ∀ path,
      (path = entry.path ∨ (∃ content, copyOf tools before.worktree entry = some (path, content)) →
        after.AsStaged tools path)
      ∧ (path ≠ entry.path → (∀ content, copyOf tools before.worktree entry ≠ some (path, content)) →
        after.staging path = before.staging path)

theorem copyOf_path {worktree : String → Option Bytes} {entry : UnmergedEntry} {copy : String}
    {content : Bytes} (copies : copyOf tools worktree entry = some (copy, content)) :
    ∃ theirs, copy = tools.ids.copyPath entry.path theirs := by
  have ⟨theirs, _, isCopy⟩ := map_eq_some_iff.1 copies
  exact ⟨theirs, (Prod.mk.inj isCopy).1.symm⟩

theorem copyOf_ne {worktree : String → Option Bytes} {entry : UnmergedEntry} {copy : String}
    {content : Bytes} (copies : copyOf tools worktree entry = some (copy, content)) :
    copy ≠ entry.path := by
  have ⟨theirs, isCopy⟩ := copyOf_path copies
  rw [isCopy]
  exact tools.ids.copyPath_ne entry.path theirs

theorem copyOf_injective {worktree worktree' : String → Option Bytes} {entry entry' : UnmergedEntry}
    {copy : String} {content content' : Bytes}
    (copies : copyOf tools worktree entry = some (copy, content))
    (copies' : copyOf tools worktree' entry' = some (copy, content')) :
    entry.path = entry'.path := by
  have ⟨theirs, isCopy⟩ := copyOf_path copies
  have ⟨theirs', isCopy'⟩ := copyOf_path copies'
  exact tools.ids.copyPath_injective (isCopy.symm.trans isCopy')

section TurnTree

variable {tools : Tools} {worktree : String → Option Bytes} {entry : UnmergedEntry}

theorem turnTree_self : turnTree tools worktree entry entry.path = settled tools worktree entry := by
  unfold turnTree
  cases copies : copyOf tools worktree entry with
  | none => exact update_self _ _ _
  | some copy =>
    simp only
    rw [update_of_ne (copyOf_ne copies).symm, update_self]

theorem turnTree_copy {copy : String} {content : Bytes}
    (copies : copyOf tools worktree entry = some (copy, content)) :
    turnTree tools worktree entry copy = some ((worktree copy).getD content) := by
  unfold turnTree
  rw [copies]
  exact update_self _ _ _

theorem turnTree_other {path : String} (other : path ≠ entry.path)
    (notCopy : ∀ content, copyOf tools worktree entry ≠ some (path, content)) :
    turnTree tools worktree entry path = worktree path := by
  unfold turnTree
  cases copies : copyOf tools worktree entry with
  | none => exact update_of_ne other _ _
  | some copy =>
    have notThis : path ≠ copy.1 := by
      intro isCopy
      exact notCopy copy.2 (by rw [copies, isCopy])
    simp only
    rw [update_of_ne notThis, update_of_ne other]

end TurnTree

section Congruence

variable {tools : Tools} {worktree worktree' : String → Option Bytes} {entry : UnmergedEntry}

theorem handResolved_congr {path : String} (same : worktree path = worktree' path) (ours oid : Bytes) :
    handResolved tools worktree path ours oid = handResolved tools worktree' path ours oid := by
  unfold handResolved
  rw [same]

theorem copyOf_congr (same : worktree entry.path = worktree' entry.path) :
    copyOf tools worktree entry = copyOf tools worktree' entry := by
  unfold copyOf needsCopy
  simp only [handResolved_congr same]

theorem keptSide_congr (same : worktree entry.path = worktree' entry.path) :
    keptSide tools worktree entry = keptSide tools worktree' entry := by
  unfold keptSide
  simp only [handResolved_congr same]

end Congruence

section Turn

variable {tools : Tools} {repository restored added : Repository} {entry : UnmergedEntry}

theorem worktree_writeConflictCopy (original : String) (theirs : Bytes) :
    (repository.writeConflictCopy tools original theirs).1.worktree
      = update repository.worktree (tools.ids.copyPath original theirs)
          (some ((repository.worktree (tools.ids.copyPath original theirs)).getD
            (conflictCopyContent tools.format original theirs (tools.ids.shortId theirs)))) := by
  unfold Repository.writeConflictCopy ShortIds.copyPath
  simp only
  cases found : repository.worktree (conflictCopyPath original (tools.ids.shortId theirs)) with
  | none => rfl
  | some content =>
    simp only [getD_some]
    rw [← found, update_eq_self]

theorem staging_writeConflictCopy (original : String) (theirs : Bytes) (path : String) :
    (repository.writeConflictCopy tools original theirs).1.staging path = repository.staging path := by
  unfold Repository.writeConflictCopy
  simp only
  split <;> rfl

theorem copy_writeConflictCopy (original : String) (theirs : Bytes) :
    (repository.writeConflictCopy tools original theirs).2.copy
      = tools.ids.copyPath original theirs := by
  unfold Repository.writeConflictCopy
  simp only
  split <;> rfl

variable (files : restored.worktree
    = update repository.worktree entry.path (settled tools repository.worktree entry))

include files

theorem turned_of_add (index : ∀ path, restored.staging path = repository.staging path)
    (noCopy : copyOf tools repository.worktree entry = none)
    (adds : restored.add tools entry.path = .ok added) : Turned tools repository added entry := by
  have sameFiles := (worktree_add adds).1
  refine ⟨?_, fun path => ⟨?_, ?_⟩⟩
  · rw [sameFiles, files]
    unfold turnTree
    rw [noCopy]
  · intro isPath
    rw [noCopy] at isPath
    have here : path = entry.path := isPath.resolve_right fun ⟨_, isCopy⟩ => nomatch isCopy
    unfold Repository.AsStaged
    rw [here, staging_add adds, if_pos rfl, sameFiles]
  · intro other _
    rw [staging_add adds, if_neg other]
    exact index path

theorem turned_of_copy {theirs : Bytes} {staged : Repository}
    (index : ∀ path, restored.staging path = repository.staging path)
    (needs : needsCopy tools repository.worktree entry = some theirs)
    (adds : (restored.writeConflictCopy tools entry.path theirs).1.add tools entry.path = .ok added)
    (addsCopy : added.add tools (restored.writeConflictCopy tools entry.path theirs).2.copy
      = .ok staged) : Turned tools repository staged entry := by
  have copies : copyOf tools repository.worktree entry = some (tools.ids.copyPath entry.path theirs,
      conflictCopyContent tools.format entry.path theirs (tools.ids.shortId theirs)) := by
    unfold copyOf
    rw [needs, map_some]
  have apart := tools.ids.copyPath_ne entry.path theirs
  rw [copy_writeConflictCopy] at addsCopy
  have sameFiles := (worktree_add addsCopy).1.trans (worktree_add adds).1
  have sameAdded := (worktree_add addsCopy).1
  refine ⟨?_, fun path => ⟨?_, ?_⟩⟩
  · rw [sameFiles, worktree_writeConflictCopy, files, update_of_ne apart]
    unfold turnTree
    rw [copies]
  · intro isPath
    unfold Repository.AsStaged
    rw [staging_add addsCopy]
    by_cases isCopy : path = tools.ids.copyPath entry.path theirs
    · rw [if_pos isCopy, isCopy, sameAdded]
    · have here : path = entry.path := by
        refine isPath.resolve_right fun ⟨content, isThis⟩ => isCopy ?_
        rw [copies] at isThis
        exact (Prod.mk.inj (some.inj isThis)).1.symm
      rw [if_neg isCopy, here, staging_add adds, if_pos rfl, sameFiles]
  · intro other notCopy
    have notThis : path ≠ tools.ids.copyPath entry.path theirs := by
      intro isCopy
      exact notCopy _ (by rw [copies, isCopy])
    rw [staging_add addsCopy, if_neg notThis, staging_add adds, if_neg other,
      staging_writeConflictCopy]
    exact index path

omit files

theorem checkoutSide_unmerged (side : Side) {blob : Bytes}
    (isUnmerged : repository.staging entry.path = some (.unmerged entry.stages))
    (present : entry.stages.side side = some blob)
    (checksOut : repository.checkoutSide tools side entry.path = .ok restored) :
    restored.worktree = update repository.worktree entry.path (some (tools.smudge entry.path blob))
      ∧ ∀ path, restored.staging path = repository.staging path := by
  unfold Repository.checkoutSide at checksOut
  simp only [isUnmerged, present] at checksOut
  rw [← Except.ok.inj checksOut]
  exact ⟨rfl, fun _ => rfl⟩

theorem showStage_unmerged (side : Side) {blob shown : Bytes}
    (isUnmerged : repository.staging entry.path = some (.unmerged entry.stages))
    (present : entry.stages.side side = some blob)
    (shows : repository.showStage side entry.path = .ok shown) : shown = blob := by
  unfold Repository.showStage at shows
  simp only [isUnmerged, present] at shows
  exact (Except.ok.inj shows).symm

variable {resolution : Resolution}

theorem turned_of_resolveBoth {ours theirs : Bytes}
    (isUnmerged : repository.staging entry.path = some (.unmerged entry.stages))
    (hasOurs : entry.stages.ours = some ours) (hasTheirs : entry.stages.theirs = some theirs)
    (ends : resolveBoth tools repository entry.path ours = .ok resolution) :
    Turned tools repository resolution.repository entry := by
  have ⟨shownOurs, showsOurs, ends⟩ := of_bind_ok ends
  have ⟨shownTheirs, showsTheirs, ends⟩ := of_bind_ok ends
  have isOurs : shownOurs = ours := showStage_unmerged .ours isUnmerged hasOurs showsOurs
  have isTheirs : shownTheirs = theirs := showStage_unmerged .theirs isUnmerged hasTheirs showsTheirs
  rw [isOurs, isTheirs] at ends
  cases resolved : handResolved tools repository.worktree entry.path ours ours with
  | true =>
    simp only [resolved] at ends
    have ⟨added, adds, ends⟩ := of_bind_ok ends
    rw [← Except.ok.inj ends]
    refine turned_of_add ?_ (fun _ => rfl) ?_ adds
    · simp only [settled, keptSide, hasOurs, hasTheirs, resolved, if_true, update_eq_self]
    · simp [copyOf, needsCopy, hasOurs, hasTheirs, resolved]
  | false =>
    simp only [resolved] at ends
    have ⟨restored, checksOut, ends⟩ := of_bind_ok ends
    have ⟨files, index⟩ := checkoutSide_unmerged .ours isUnmerged hasOurs checksOut
    have isSettled : settled tools repository.worktree entry
        = some (tools.smudge entry.path ours) := by
      simp [settled, keptSide, hasOurs, hasTheirs, resolved]
    rw [← isSettled] at files
    by_cases same : ours = theirs
    · rw [if_pos same] at ends
      have ⟨added, adds, ends⟩ := of_bind_ok ends
      rw [← Except.ok.inj ends]
      exact turned_of_add files index (by simp [copyOf, needsCopy, hasOurs, hasTheirs, same]) adds
    · rw [if_neg same] at ends
      by_cases pointer : isLfsPointer theirs = true
      · rw [if_pos pointer] at ends
        have ⟨added, adds, ends⟩ := of_bind_ok ends
        rw [← Except.ok.inj ends]
        exact turned_of_add files index (by simp [copyOf, needsCopy, hasOurs, hasTheirs, pointer])
          adds
      · rw [if_neg pointer] at ends
        have ⟨added, adds, ends⟩ := of_bind_ok ends
        have ⟨staged, addsCopy, ends⟩ := of_bind_ok ends
        rw [← Except.ok.inj ends]
        have needs : needsCopy tools repository.worktree entry = some theirs := by
          simp [needsCopy, hasOurs, hasTheirs, resolved, same, pointer]
        exact turned_of_copy files index needs adds addsCopy

theorem turned_of_resolveOne (side : Side) {blob : Bytes}
    (isUnmerged : repository.staging entry.path = some (.unmerged entry.stages))
    (present : entry.stages.side side = some blob)
    (isKept : keptSide tools repository.worktree entry = some blob)
    (noCopy : copyOf tools repository.worktree entry = none)
    (ends : resolveOne tools repository side entry.path = .ok resolution) :
    Turned tools repository resolution.repository entry := by
  have ⟨restored, checksOut, ends⟩ := of_bind_ok ends
  have ⟨added, adds, ends⟩ := of_bind_ok ends
  rw [← Except.ok.inj ends]
  have ⟨files, index⟩ := checkoutSide_unmerged side isUnmerged present checksOut
  have isSettled : settled tools repository.worktree entry
      = some (tools.smudge entry.path blob) := by
    unfold settled
    rw [isKept]
  rw [← isSettled] at files
  exact turned_of_add files index noCopy adds

theorem turned_of_resolveEntry
    (isUnmerged : repository.staging entry.path = some (.unmerged entry.stages))
    (ends : resolveEntry tools repository entry = .ok resolution) :
    Turned tools repository resolution.repository entry := by
  unfold resolveEntry at ends
  cases hasOurs : entry.stages.ours with
  | some ours =>
    cases hasTheirs : entry.stages.theirs with
    | some theirs =>
      simp only [hasOurs, hasTheirs] at ends
      exact turned_of_resolveBoth isUnmerged hasOurs hasTheirs ends
    | none =>
      simp only [hasOurs, hasTheirs] at ends
      exact turned_of_resolveOne .ours isUnmerged hasOurs (by simp [keptSide, hasOurs, hasTheirs])
        (by simp [copyOf, needsCopy, hasTheirs]) ends
  | none =>
    cases hasTheirs : entry.stages.theirs with
    | some theirs =>
      simp only [hasOurs, hasTheirs] at ends
      exact turned_of_resolveOne .theirs isUnmerged hasTheirs (by simp [keptSide, hasOurs, hasTheirs])
        (by simp [copyOf, needsCopy, hasOurs]) ends
    | none =>
      simp only [hasOurs, hasTheirs] at ends
      rw [← Except.ok.inj ends]
      have noCopy : copyOf tools repository.worktree entry = none := by
        simp [copyOf, needsCopy, hasOurs]
      have isSettled : settled tools repository.worktree entry
          = repository.worktree entry.path := by
        simp [settled, keptSide, hasOurs, hasTheirs]
      refine ⟨?_, fun path => ⟨?_, fun other _ => ?_⟩⟩
      · unfold turnTree
        rw [noCopy, isSettled, update_eq_self]
        exact worktree_addIncludingRemovals
      · intro isPath
        rw [noCopy] at isPath
        have here : path = entry.path := isPath.resolve_right fun ⟨_, isCopy⟩ => nomatch isCopy
        unfold Repository.AsStaged
        rw [here, staging_addIncludingRemovals, if_pos rfl, worktree_addIncludingRemovals]
      · rw [staging_addIncludingRemovals, if_neg other]

/-- A path that a copy was staged at: it has no sides left to show, and what is there stays. -/
theorem unchanged_of_resolveEntry {content : Bytes}
    (file : repository.worktree entry.path = some content)
    (asStaged : repository.AsStaged tools entry.path)
    (ends : resolveEntry tools repository entry = .ok resolution) :
    (entry.stages.ours = none ∨ entry.stages.theirs = none)
      ∧ resolution.repository.worktree = repository.worktree
      ∧ ∀ path, resolution.repository.staging path = repository.staging path := by
  have isMerged : repository.staging entry.path = some (.merged (tools.clean entry.path content)) := by
    unfold Repository.AsStaged at asStaged
    rw [asStaged, file, map_some]
  have restaged : ∀ {added : Repository}, repository.add tools entry.path = .ok added →
      added.worktree = repository.worktree ∧ ∀ path, added.staging path = repository.staging path := by
    intro added adds
    refine ⟨(worktree_add adds).1, fun path => ?_⟩
    rw [staging_add adds]
    by_cases here : path = entry.path
    · rw [if_pos here, here, asStaged]
    · rw [if_neg here]
  have one : ∀ {side : Side}, resolveOne tools repository side entry.path = .ok resolution →
      resolution.repository.worktree = repository.worktree
        ∧ ∀ path, resolution.repository.staging path = repository.staging path := by
    intro side ends
    have ⟨restored, checksOut, ends⟩ := of_bind_ok ends
    have ⟨added, adds, ends⟩ := of_bind_ok ends
    unfold Repository.checkoutSide at checksOut
    simp only [isMerged, file, map_some, if_true] at checksOut
    rw [← Except.ok.inj checksOut] at adds
    rw [← Except.ok.inj ends]
    exact restaged adds
  unfold resolveEntry at ends
  cases hasOurs : entry.stages.ours with
  | some ours =>
    cases hasTheirs : entry.stages.theirs with
    | some theirs =>
      simp only [hasOurs, hasTheirs] at ends
      have ⟨shown, shows, _⟩ := of_bind_ok ends
      unfold Repository.showStage at shows
      simp only [isMerged] at shows
      cases shows
    | none =>
      simp only [hasOurs, hasTheirs] at ends
      exact ⟨.inr rfl, one ends⟩
  | none =>
    cases hasTheirs : entry.stages.theirs with
    | some theirs =>
      simp only [hasOurs, hasTheirs] at ends
      exact ⟨.inl rfl, one ends⟩
    | none =>
      simp only [hasOurs, hasTheirs] at ends
      rw [← Except.ok.inj ends]
      refine ⟨.inl rfl, worktree_addIncludingRemovals, fun path => ?_⟩
      show (repository.addIncludingRemovals tools entry.path).staging path = _
      rw [staging_addIncludingRemovals]
      by_cases here : path = entry.path
      · rw [if_pos here, here, asStaged]
      · rw [if_neg here]

end Turn

/-! ### All paths -/

def Copied (tools : Tools) (start : Repository) (done : List UnmergedEntry) (path : String)
    (content : Bytes) : Prop :=
  ∃ entry ∈ done, copyOf tools start.worktree entry = some (path, content)

def Touched (tools : Tools) (start : Repository) (done : List UnmergedEntry) (path : String) : Prop :=
  (∃ entry ∈ done, entry.path = path) ∨ ∃ content, Copied tools start done path content

def Unsided (tools : Tools) (start : Repository) (done : List UnmergedEntry) (path : String) : Prop :=
  ∀ entry ∈ done, entry.path = path → keptSide tools start.worktree entry = none

theorem unsided_or_sided (tools : Tools) (start : Repository) (done : List UnmergedEntry)
    (path : String) :
    Unsided tools start done path
      ∨ ∃ entry ∈ done, entry.path = path ∧ ∃ side, keptSide tools start.worktree entry = some side := by
  by_cases sided : ∃ entry ∈ done, entry.path = path
      ∧ ∃ side, keptSide tools start.worktree entry = some side
  · exact .inr sided
  · left
    intro entry member isPath
    cases isKept : keptSide tools start.worktree entry with
    | none => rfl
    | some side => exact absurd ⟨entry, member, isPath, side, isKept⟩ sided

/-- Where the loop is after some paths, compared with the repository it started from. -/
structure Progress (tools : Tools) (start : Repository) (done : List UnmergedEntry)
    (repository : Repository) : Prop where
  asStaged : ∀ path, Touched tools start done path → repository.AsStaged tools path
  index : ∀ path, ¬Touched tools start done path → repository.staging path = start.staging path
  files : ∀ path, Unsided tools start done path →
    (∀ content, ¬Copied tools start done path content) →
    repository.worktree path = start.worktree path
  copies : ∀ path, Unsided tools start done path → ∀ content, Copied tools start done path content →
    repository.worktree path = some ((start.worktree path).getD content)
  sides : ∀ before entry after, done = before ++ entry :: after →
    ∀ side, keptSide tools start.worktree entry = some side →
      (∀ content, Copied tools start before entry.path content →
        repository.worktree entry.path = some ((start.worktree entry.path).getD content))
      ∧ ((∀ content, ¬Copied tools start before entry.path content) →
        repository.worktree entry.path = some (tools.smudge entry.path side))

theorem progress_start (tools : Tools) (start : Repository) : Progress tools start [] start where
  asStaged path touched := by
    rcases touched with ⟨_, member, _⟩ | ⟨_, _, member, _⟩
    · exact absurd member not_mem_nil
    · exact absurd member not_mem_nil
  index _ _ := rfl
  files _ _ _ := rfl
  copies path _ content copied := by
    have ⟨_, member, _⟩ := copied
    exact absurd member not_mem_nil
  sides before entry after isNil := by
    exact absurd isNil.symm (by simp)

theorem cut_concat {α : Type} {done before after : List α} {last element : α}
    (isCut : done ++ [last] = before ++ element :: after) :
    (before = done ∧ element = last)
      ∨ ∃ rest, after = rest ++ [last] ∧ done = before ++ element :: rest := by
  rcases eq_nil_or_concat after with isNil | ⟨rest, final, isConcat⟩
  · rw [isNil] at isCut
    have ⟨sameDone, sameLast⟩ := append_inj' isCut rfl
    exact .inl ⟨sameDone.symm, (singleton_inj.1 sameLast).symm⟩
  · rw [isConcat, concat_eq_append, ← cons_append, ← append_assoc] at isCut
    have ⟨sameDone, sameLast⟩ := append_inj' isCut rfl
    refine .inr ⟨rest, ?_, sameDone⟩
    rw [isConcat, concat_eq_append, singleton_inj.1 sameLast]

section Steps

variable {tools : Tools} {start repository : Repository} {done : List UnmergedEntry}
  {entry : UnmergedEntry}

theorem copied_concat {path : String} {content : Bytes} :
    Copied tools start (done ++ [entry]) path content ↔ Copied tools start done path content
        ∨ copyOf tools start.worktree entry = some (path, content) := by
  constructor
  · rintro ⟨other, member, copies⟩
    rcases mem_append.1 member with earlier | last
    · exact .inl ⟨other, earlier, copies⟩
    · rw [mem_singleton.1 last] at copies
      exact .inr copies
  · rintro (⟨other, member, copies⟩ | copies)
    · exact ⟨other, mem_append_left _ member, copies⟩
    · exact ⟨entry, mem_append_right _ (mem_singleton_self _), copies⟩

theorem unsided_concat {path : String} (unsided : Unsided tools start (done ++ [entry]) path) :
    Unsided tools start done path :=
  fun other member => unsided other (mem_append_left _ member)

theorem progress_taken {resolution : Resolution} {content : Bytes}
    (progress : Progress tools start done repository)
    (isNew : ∀ other ∈ done, other.path ≠ entry.path)
    (taken : Copied tools start done entry.path content)
    (ends : resolveEntry tools repository entry = .ok resolution) :
    Progress tools start (done ++ [entry]) resolution.repository := by
  have unsided : Unsided tools start done entry.path :=
    fun other member same => absurd same (isNew other member)
  have file := progress.copies entry.path unsided content taken
  have touched : Touched tools start done entry.path := .inr ⟨content, taken⟩
  have ⟨oneSided, sameFiles, sameIndex⟩ :=
    unchanged_of_resolveEntry file (progress.asStaged entry.path touched) ends
  have noCopy : copyOf tools start.worktree entry = none := by
    rcases oneSided with noOurs | noTheirs
    · simp [copyOf, needsCopy, noOurs]
    · simp [copyOf, needsCopy, noTheirs]
  have sameCopied : ∀ path content, Copied tools start (done ++ [entry]) path content →
      Copied tools start done path content := by
    intro path content copied
    exact (copied_concat.1 copied).resolve_right (by rw [noCopy]; exact fun none => nomatch none)
  have sameTouched : ∀ path, Touched tools start (done ++ [entry]) path →
      Touched tools start done path := by
    rintro path (⟨other, member, isPath⟩ | ⟨content, copied⟩)
    · rcases mem_append.1 member with earlier | last
      · exact .inl ⟨other, earlier, isPath⟩
      · rw [mem_singleton.1 last] at isPath
        rw [← isPath]
        exact touched
    · exact .inr ⟨content, sameCopied path content copied⟩
  constructor
  · intro path isTouched
    unfold Repository.AsStaged
    rw [sameIndex, sameFiles]
    exact progress.asStaged path (sameTouched path isTouched)
  · intro path untouched
    rw [sameIndex]
    refine progress.index path fun isTouched => untouched ?_
    rcases isTouched with ⟨other, member, isPath⟩ | ⟨content, copied⟩
    · exact .inl ⟨other, mem_append_left _ member, isPath⟩
    · exact .inr ⟨content, copied_concat.2 (.inl copied)⟩
  · intro path isUnsided notCopied
    rw [sameFiles]
    exact progress.files path (unsided_concat isUnsided) fun content copied =>
      notCopied content (copied_concat.2 (.inl copied))
  · intro path isUnsided content copied
    rw [sameFiles]
    exact progress.copies path (unsided_concat isUnsided) content (sameCopied path content copied)
  · intro before other after isCut side isKept
    rw [sameFiles]
    rcases cut_concat isCut with ⟨isDone, isEntry⟩ | ⟨rest, _, isDone⟩
    · rw [isDone, isEntry]
      refine ⟨fun content copied => progress.copies entry.path unsided content copied, ?_⟩
      intro notCopied
      exact absurd taken (notCopied content)
    · exact progress.sides before other rest isDone side isKept

theorem progress_turned {resolution : Resolution} (progress : Progress tools start done repository)
    (listed : start.staging entry.path = some (.unmerged entry.stages))
    (isNew : ∀ other ∈ done, other.path ≠ entry.path)
    (notTaken : ∀ content, ¬Copied tools start done entry.path content)
    (ends : resolveEntry tools repository entry = .ok resolution) :
    Progress tools start (done ++ [entry]) resolution.repository := by
  have untouched : ¬Touched tools start done entry.path := by
    rintro (⟨other, member, same⟩ | ⟨content, copied⟩)
    · exact isNew other member same
    · exact notTaken content copied
  have unsided : Unsided tools start done entry.path :=
    fun other member same => absurd same (isNew other member)
  have sameFile := progress.files entry.path unsided notTaken
  have isUnmerged := (progress.index entry.path untouched).trans listed
  have ⟨files, index⟩ := turned_of_resolveEntry isUnmerged ends
  have sameCopy : copyOf tools repository.worktree entry = copyOf tools start.worktree entry :=
    copyOf_congr sameFile
  have sameSide : keptSide tools repository.worktree entry = keptSide tools start.worktree entry :=
    keptSide_congr sameFile
  rw [sameCopy] at index
  -- the copy of this path was not the copy of an earlier one
  have firstCopy : ∀ path content content', copyOf tools start.worktree entry = some (path, content) →
      ¬Copied tools start done path content' := by
    rintro path content content' copies ⟨other, member, copies'⟩
    exact isNew other member (copyOf_injective copies' copies)
  have otherFile : ∀ path, path ≠ entry.path →
      (∀ content, copyOf tools start.worktree entry ≠ some (path, content)) →
      resolution.repository.worktree path = repository.worktree path := by
    intro path other notCopy
    rw [files]
    exact turnTree_other other (by rw [sameCopy]; exact notCopy)
  have copyFile : ∀ path content, copyOf tools start.worktree entry = some (path, content) →
      resolution.repository.worktree path = some ((repository.worktree path).getD content) := by
    intro path content copies
    rw [files]
    exact turnTree_copy (sameCopy.trans copies)
  have ownFile : resolution.repository.worktree entry.path = settled tools start.worktree entry := by
    rw [files, turnTree_self]
    unfold settled
    rw [sameSide, sameFile]
  constructor
  · intro path touched
    by_cases byEntry : path = entry.path
        ∨ ∃ content, copyOf tools start.worktree entry = some (path, content)
    · exact (index path).1 byEntry
    · have ⟨other, notCopy⟩ := not_or.1 byEntry
      have notCopy' := not_exists.1 notCopy
      unfold Repository.AsStaged
      rw [(index path).2 other notCopy', otherFile path other notCopy']
      apply progress.asStaged
      rcases touched with ⟨earlier, member, isPath⟩ | ⟨content, copied⟩
      · rcases mem_append.1 member with inDone | last
        · exact .inl ⟨earlier, inDone, isPath⟩
        · rw [mem_singleton.1 last] at isPath
          exact absurd isPath.symm other
      · exact .inr ⟨content, (copied_concat.1 copied).resolve_right (notCopy' content)⟩
  · intro path notTouched
    have other : path ≠ entry.path := fun here => notTouched
      (.inl ⟨entry, mem_append_right _ (mem_singleton_self _), here.symm⟩)
    have notCopy : ∀ content, copyOf tools start.worktree entry ≠ some (path, content) :=
      fun content copies => notTouched (.inr ⟨content, copied_concat.2 (.inr copies)⟩)
    rw [(index path).2 other notCopy]
    refine progress.index path fun touched => notTouched ?_
    rcases touched with ⟨earlier, member, isPath⟩ | ⟨content, copied⟩
    · exact .inl ⟨earlier, mem_append_left _ member, isPath⟩
    · exact .inr ⟨content, copied_concat.2 (.inl copied)⟩
  · intro path isUnsided notCopied
    have notCopy : ∀ content, copyOf tools start.worktree entry ≠ some (path, content) :=
      fun content copies => notCopied content (copied_concat.2 (.inr copies))
    by_cases here : path = entry.path
    · have noSide := isUnsided entry (mem_append_right _ (mem_singleton_self _)) here.symm
      rw [here, ownFile]
      unfold settled
      rw [noSide]
    · rw [otherFile path here notCopy]
      exact progress.files path (unsided_concat isUnsided) fun content copied =>
        notCopied content (copied_concat.2 (.inl copied))
  · intro path isUnsided content copied
    rcases copied_concat.1 copied with inDone | copies
    · have here : path ≠ entry.path := fun same => notTaken content (same ▸ inDone)
      rw [otherFile path here fun content' copies => firstCopy path content' content copies inDone]
      exact progress.copies path (unsided_concat isUnsided) content inDone
    · rw [copyFile path content copies]
      rw [progress.files path (unsided_concat isUnsided) fun content' =>
        firstCopy path content content' copies]
  · intro before other after isCut side isKept
    rcases cut_concat isCut with ⟨isDone, isEntry⟩ | ⟨rest, _, isDone⟩
    · rw [isDone, isEntry]
      rw [isEntry] at isKept
      refine ⟨fun content copied => absurd copied (notTaken content), fun _ => ?_⟩
      rw [ownFile]
      unfold settled
      rw [isKept]
    · have member : other ∈ done := by
        rw [isDone]
        exact mem_append_right _ mem_cons_self
      have ⟨ifCopied, ifNot⟩ := progress.sides before other rest isDone side isKept
      -- a copy that comes to a resolved path finds a file there
      have keeps : ∀ content, repository.worktree other.path = some content →
          resolution.repository.worktree other.path = some content := by
        intro content file
        by_cases copiesHere : ∃ content', copyOf tools start.worktree entry = some (other.path, content')
        · have ⟨content', copies⟩ := copiesHere
          rw [copyFile other.path content' copies, file, getD_some]
        · rw [otherFile other.path (isNew other member) (not_exists.1 copiesHere), file]
      exact ⟨fun content copied => keeps _ (ifCopied content copied),
        fun notCopied => keeps _ (ifNot notCopied)⟩

end Steps

theorem progress_of_resolveEntries {start : Repository} {rest : List UnmergedEntry} :
    ∀ {done : List UnmergedEntry} {current final : Resolution},
      done ++ rest = start.unmerged → Progress tools start done current.repository →
      resolveEntries tools current rest = .ok final →
      Progress tools start start.unmerged final.repository := by
  induction rest with
  | nil =>
    intro done current final isAll progress ends
    rw [← Except.ok.inj ends, ← isAll, append_nil]
    exact progress
  | cons entry rest ih =>
    intro done current final isAll progress ends
    have ⟨next, resolves, ends⟩ := of_bind_ok ends
    have listed : start.staging entry.path = some (.unmerged entry.stages) :=
      staging_of_mem_unmerged (by rw [← isAll]; simp)
    have isNew : ∀ other ∈ done, other.path ≠ entry.path := by
      intro other member same
      have distinct := nodup_unmerged start
      rw [← isAll, map_append, map_cons] at distinct
      have disjoint := disjoint_of_nodup_append distinct
      exact disjoint (List.mem_map_of_mem member) (by rw [same]; exact mem_cons_self)
    have advanced : Progress tools start (done ++ [entry]) next.repository := by
      by_cases taken : ∃ content, Copied tools start done entry.path content
      · have ⟨content, copied⟩ := taken
        exact progress_taken progress isNew copied resolves
      · exact progress_turned progress listed isNew (not_exists.1 taken) resolves
    have isRest : done ++ [entry] ++ rest = start.unmerged := by
      rw [append_assoc, singleton_append, isAll]
    refine ih isRest ?_ ends
    exact advanced

theorem progress_of_resolveUnmerged {start : Repository} {final : Resolution}
    (ends : resolveUnmerged tools start = .ok final) :
    Progress tools start start.unmerged final.repository :=
  progress_of_resolveEntries (nil_append _) (progress_start tools start) ends

/-! ### Both sides are kept -/

def Repository.Holds (tools : Tools) (repository : Repository) (path : String) (content : Bytes) :
    Prop :=
  repository.worktree path = some content
    ∧ repository.staging path = some (.merged (tools.clean path content))

def OwnEdit (tools : Tools) (path : String) (ours content : Bytes) : Prop :=
  content ≠ ours ∧ hasConflictMarkers (tools.decode content) = false ∧ tools.clean path content ≠ ours

def CopyKept (tools : Tools) (before after : Repository) (path : String) (theirs : Bytes) : Prop :=
  let copy := tools.ids.copyPath path theirs
  ∃ content, after.Holds tools copy content ∧ (before.worktree copy = some content
      ∨ before.worktree copy = none
        ∧ content = conflictCopyContent tools.format path theirs (tools.ids.shortId theirs))

structure KeepsBothSides (tools : Tools) (before after : Repository) : Prop where
  noneUnmerged : after.unmerged = []
  bothSides : ∀ entry ∈ before.unmerged, ∀ ours theirs, entry.stages.ours = some ours →
    entry.stages.theirs = some theirs →
      (∃ edit, OwnEdit tools entry.path ours edit ∧ before.worktree entry.path = some edit
        ∧ after.Holds tools entry.path edit)
      ∨ after.Holds tools entry.path (tools.smudge entry.path ours)
        ∧ (ours = theirs ∨ isLfsPointer theirs = true
          ∨ CopyKept tools before after entry.path theirs)
  oneSide : ∀ entry ∈ before.unmerged, ∀ side,
    (entry.stages.ours = some side ∧ entry.stages.theirs = none
      ∨ entry.stages.ours = none ∧ entry.stages.theirs = some side) →
    after.Holds tools entry.path (tools.smudge entry.path side)
  others : ∀ path content, (∀ entry ∈ before.unmerged, entry.path ≠ path) →
    before.worktree path = some content → after.worktree path = some content

/-- No Conflict Copy is due at a path that gets a side of its own, unless that side is there. -/
def CopiesApart (tools : Tools) (repository : Repository) : Prop :=
  ∀ entry ∈ repository.unmerged, ∀ other ∈ repository.unmerged, ∀ content side,
    copyOf tools repository.worktree entry = some (other.path, content) →
    keptSide tools repository.worktree other = some side →
    (repository.worktree other.path).getD content = tools.smudge other.path side

section Kept

variable {tools : Tools} {start final : Repository} {entry : UnmergedEntry} {content : Bytes}

theorem Repository.AsStaged.holds {path : String} (asStaged : final.AsStaged tools path)
    (file : final.worktree path = some content) :
    final.Holds tools path content := by
  refine ⟨file, ?_⟩
  unfold Repository.AsStaged at asStaged
  rw [asStaged, file, map_some]

theorem handResolved_iff {worktree : String → Option Bytes} {path : String} {ours : Bytes} :
    handResolved tools worktree path ours ours = true
      ↔ ∃ edit, worktree path = some edit ∧ OwnEdit tools path ours edit := by
  unfold handResolved OwnEdit worktreeIsOurs
  cases worktree path with
  | none => simp
  | some content => simp [and_assoc]

variable (progress : Progress tools start start.unmerged final)

include progress

theorem Progress.holds_listed (listed : entry ∈ start.unmerged)
    (file : final.worktree entry.path = some content) :
    final.Holds tools entry.path content :=
  (progress.asStaged entry.path (.inl ⟨entry, listed, rfl⟩)).holds file

theorem Progress.holds_side (apart : CopiesApart tools start) (listed : entry ∈ start.unmerged)
    {side : Bytes} (isKept : keptSide tools start.worktree entry = some side) :
    final.Holds tools entry.path (tools.smudge entry.path side) := by
  apply progress.holds_listed listed
  have ⟨before, after, isCut⟩ := append_of_mem listed
  have ⟨ifCopied, ifNot⟩ := progress.sides before entry after isCut side isKept
  by_cases copied : ∃ content, Copied tools start before entry.path content
  · have ⟨content, isCopied⟩ := copied
    rw [ifCopied content isCopied]
    have ⟨other, member, copies⟩ := isCopied
    have otherListed : other ∈ start.unmerged := by
      rw [isCut]
      exact mem_append_left _ member
    rw [apart other otherListed entry listed content side copies isKept]
  · exact ifNot (not_exists.1 copied)

theorem Progress.holds_copy (apart : CopiesApart tools start) (listed : entry ∈ start.unmerged)
    {copy : String} (copies : copyOf tools start.worktree entry = some (copy, content)) :
    final.Holds tools copy ((start.worktree copy).getD content) := by
  have copied : Copied tools start start.unmerged copy content := ⟨entry, listed, copies⟩
  rcases unsided_or_sided tools start start.unmerged copy with unsided | sided
  · exact (progress.asStaged copy (.inr ⟨content, copied⟩)).holds
      (progress.copies copy unsided content copied)
  · have ⟨other, otherListed, isCopy, side, isKept⟩ := sided
    have holds := progress.holds_side apart otherListed isKept
    rw [← isCopy] at copies ⊢
    rw [apart entry listed other otherListed content side copies isKept]
    exact holds

omit progress

theorem copyOf_eq {ours theirs : Bytes} (hasOurs : entry.stages.ours = some ours)
    (hasTheirs : entry.stages.theirs = some theirs)
    (notResolved : handResolved tools start.worktree entry.path ours ours = false)
    (differ : ours ≠ theirs) (notPointer : isLfsPointer theirs = false) :
    copyOf tools start.worktree entry = some (tools.ids.copyPath entry.path theirs,
      conflictCopyContent tools.format entry.path theirs (tools.ids.shortId theirs)) := by
  simp [copyOf, needsCopy, hasOurs, hasTheirs, notResolved, differ, notPointer]

theorem Progress.noneUnmerged (progress : Progress tools start start.unmerged final) :
    final.unmerged = [] := by
  rw [eq_nil_iff_forall_not_mem]
  intro entry member
  have isUnmerged := staging_of_mem_unmerged member
  by_cases touched : Touched tools start start.unmerged entry.path
  · have asStaged := progress.asStaged entry.path touched
    unfold Repository.AsStaged at asStaged
    rw [isUnmerged] at asStaged
    cases file : final.worktree entry.path with
    | none | some => rw [file] at asStaged; cases asStaged
  · rw [progress.index entry.path touched] at isUnmerged
    exact touched (.inl ⟨_, mem_unmerged_of_staging isUnmerged, rfl⟩)

theorem Progress.keepsBothSides (progress : Progress tools start start.unmerged final)
    (apart : CopiesApart tools start) : KeepsBothSides tools start final := by
  refine ⟨progress.noneUnmerged, ?_, ?_, ?_⟩
  · intro entry listed ours theirs hasOurs hasTheirs
    cases resolved : handResolved tools start.worktree entry.path ours ours with
    | true =>
      have ⟨edit, file, isOwn⟩ := handResolved_iff.1 resolved
      have unsided : Unsided tools start start.unmerged entry.path := by
        intro other member same
        have isEntry : other = entry :=
          inj_on_of_nodup_map (nodup_unmerged start) member listed same
        simp [isEntry, keptSide, hasOurs, hasTheirs, resolved]
      have stays : final.worktree entry.path = some edit := by
        by_cases copied : ∃ content, Copied tools start start.unmerged entry.path content
        · have ⟨content, isCopied⟩ := copied
          rw [progress.copies entry.path unsided content isCopied, file, getD_some]
        · rw [progress.files entry.path unsided (not_exists.1 copied), file]
      exact .inl ⟨edit, isOwn, file, progress.holds_listed listed stays⟩
    | false =>
      have isKept : keptSide tools start.worktree entry = some ours := by
        simp [keptSide, hasOurs, hasTheirs, resolved]
      refine .inr ⟨progress.holds_side apart listed isKept, ?_⟩
      by_cases same : ours = theirs
      · exact .inl same
      · cases pointer : isLfsPointer theirs with
        | true => exact .inr (.inl rfl)
        | false =>
          have copies := copyOf_eq hasOurs hasTheirs resolved same pointer
          have holds := progress.holds_copy apart listed copies
          refine .inr (.inr ⟨_, holds, ?_⟩)
          cases start.worktree (tools.ids.copyPath entry.path theirs) with
          | none => exact .inr ⟨rfl, rfl⟩
          | some content => exact .inl rfl
  · rintro entry listed side (⟨hasOurs, noTheirs⟩ | ⟨noOurs, hasTheirs⟩)
    · exact progress.holds_side apart listed (by simp [keptSide, hasOurs, noTheirs])
    · exact progress.holds_side apart listed (by simp [keptSide, noOurs, hasTheirs])
  · intro path content notListed file
    have unsided : Unsided tools start start.unmerged path :=
      fun entry member isPath => absurd isPath (notListed entry member)
    by_cases copied : ∃ content, Copied tools start start.unmerged path content
    · have ⟨copy, isCopied⟩ := copied
      rw [progress.copies path unsided copy isCopied, file, getD_some]
    · rw [progress.files path unsided (not_exists.1 copied), file]

theorem KeepsBothSides.holds_side (keeps : KeepsBothSides tools start final)
    (listed : entry ∈ start.unmerged) {side : Bytes}
    (isKept : keptSide tools start.worktree entry = some side) :
    final.Holds tools entry.path (tools.smudge entry.path side) := by
  unfold keptSide at isKept
  cases hasOurs : entry.stages.ours with
  | some ours =>
    cases hasTheirs : entry.stages.theirs with
    | some theirs =>
      simp only [hasOurs, hasTheirs] at isKept
      split_ifs at isKept with resolved
      rw [← some.inj isKept]
      rcases keeps.bothSides entry listed ours theirs hasOurs hasTheirs with
        ⟨edit, isOwn, file, _⟩ | ⟨holds, _⟩
      · exact absurd (handResolved_iff.2 ⟨edit, file, isOwn⟩) resolved
      · exact holds
    | none =>
      simp only [hasOurs, hasTheirs] at isKept
      rw [← some.inj isKept]
      exact keeps.oneSide entry listed ours (.inl ⟨hasOurs, hasTheirs⟩)
  | none =>
    cases hasTheirs : entry.stages.theirs with
    | some theirs =>
      simp only [hasOurs, hasTheirs] at isKept
      rw [← some.inj isKept]
      exact keeps.oneSide entry listed theirs (.inr ⟨hasOurs, hasTheirs⟩)
    | none =>
      simp only [hasOurs, hasTheirs] at isKept
      cases isKept

theorem eq_of_copyOf {copy : String}
    (copies : copyOf tools start.worktree entry = some (copy, content)) :
    ∃ ours theirs, entry.stages.ours = some ours ∧ entry.stages.theirs = some theirs
      ∧ handResolved tools start.worktree entry.path ours ours = false ∧ ours ≠ theirs
      ∧ isLfsPointer theirs = false ∧ copy = tools.ids.copyPath entry.path theirs
      ∧ content = conflictCopyContent tools.format entry.path theirs (tools.ids.shortId theirs) := by
  have ⟨theirs, needs, isCopy⟩ := map_eq_some_iff.1 copies
  have ⟨isPath, isContent⟩ := Prod.mk.inj isCopy
  unfold needsCopy at needs
  split at needs
  · rename_i ours theirs' hasOurs hasTheirs
    split_ifs at needs with noNeed
    have isTheirs := some.inj needs
    rw [← isTheirs] at isPath isContent
    have facts := not_or.1 noNeed
    have facts' := not_or.1 facts.2
    exact ⟨ours, theirs', hasOurs, hasTheirs, by simpa using facts.1, facts'.1,
      by simpa using facts'.2, isPath.symm, isContent.symm⟩
  · cases needs

theorem KeepsBothSides.copiesApart (keeps : KeepsBothSides tools start final) :
    CopiesApart tools start := by
  intro entry listed other otherListed content side copies isKept
  have holds := keeps.holds_side otherListed isKept
  have ⟨ours, theirs, hasOurs, hasTheirs, notResolved, differ, notPointer, isCopy, isContent⟩ :=
    eq_of_copyOf copies
  rcases keeps.bothSides entry listed ours theirs hasOurs hasTheirs with
    ⟨edit, isOwn, file, _⟩ | ⟨_, same | pointer | ⟨kept, holdsCopy, isKeptCopy⟩⟩
  · rw [handResolved_iff.2 ⟨edit, file, isOwn⟩] at notResolved
    cases notResolved
  · exact absurd same differ
  · rw [pointer] at notPointer
    cases notPointer
  · rw [← isCopy] at holdsCopy isKeptCopy
    rw [← isContent] at isKeptCopy
    have isSide : kept = tools.smudge other.path side := some.inj (holdsCopy.1.symm.trans holds.1)
    rw [← isSide]
    rcases isKeptCopy with earlier | ⟨absent, isNew⟩
    · rw [earlier, getD_some]
    · rw [absent, getD_none, isNew]

end Kept

/-- Resolving keeps both sides of every conflict exactly when the copies are apart. -/
theorem keepsBothSides_iff {tools : Tools} {start : Repository} {final : Resolution}
    (ends : resolveUnmerged tools start = .ok final) :
    KeepsBothSides tools start final.repository ↔ CopiesApart tools start :=
  ⟨fun keeps => keeps.copiesApart,
    fun apart => (progress_of_resolveUnmerged ends).keepsBothSides apart⟩

/-! ### Two merges -/

theorem sevenHex_incoming : SevenHex "e3b98a4".toList := ⟨by simp, List.all_eq_true.1 (by decide)⟩

def plainTools : Tools where
  smudge _ bytes := bytes
  clean _ bytes := bytes
  decode bytes := String.ofList (bytes.map fun byte => Char.ofNat byte.toNat)
  ids :=
    { shortId := fun _ => "e3b98a4"
      length := fun _ => sevenHex_incoming.1
      hex := fun _ => sevenHex_incoming.2 }
  format := ⟨fun _ => none, fun _ body => body, fun _ _ => ""⟩

def bibliography : IndexEntry := ⟨"refs.bib", .unmerged ⟨some [98], some [111], some [116]⟩⟩

def earlierCopy : IndexEntry :=
  ⟨"refs.conflict.e3b98a4.bib", .unmerged ⟨some [116], none, some [117]⟩⟩

def files (content : List (String × Bytes)) (path : String) : Option Bytes :=
  (content.find? fun file => file.1 = path).map Prod.snd

def oneConflict : Repository where
  worktree := files [("refs.bib", [111])]
  index := ⟨[bibliography], by decide⟩
  head := some 0
  mergeHead := some 1
  operation := none
  written := []

def twoConflicts : Repository where
  worktree := files [("refs.bib", [111]), ("refs.conflict.e3b98a4.bib", [118])]
  index := ⟨[bibliography, earlierCopy], by decide⟩
  head := some 0
  mergeHead := some 1
  operation := none
  written := []

theorem keepsBothSides_one : ∃ final, resolveUnmerged plainTools oneConflict = .ok final
      ∧ KeepsBothSides plainTools oneConflict final.repository := by
  have succeeds : (resolveUnmerged plainTools oneConflict).isOk = true := by decide
  cases ends : resolveUnmerged plainTools oneConflict with
  | error failure =>
    rw [ends] at succeeds
    cases succeeds
  | ok final =>
    refine ⟨final, rfl, (keepsBothSides_iff ends).2 ?_⟩
    intro entry listed other otherListed content side copies _
    have isOnly : ∀ entry ∈ oneConflict.unmerged,
        entry = ⟨"refs.bib", ⟨some [98], some [111], some [116]⟩⟩ :=
      by decide
    have same : other.path = entry.path := by rw [isOnly other otherListed, isOnly entry listed]
    exact absurd same (copyOf_ne copies)

/-- The copy resolves the path with the file found there, so the side of the path is lost. -/
theorem copy_replaces_side : ¬∀ (tools : Tools) (start : Repository) (final : Resolution),
      resolveUnmerged tools start = .ok final → KeepsBothSides tools start final.repository := by
  intro always
  have after : (resolveUnmerged plainTools twoConflicts).toOption.map
      (fun final => final.repository.worktree "refs.conflict.e3b98a4.bib") = some (some [118]) := by
    decide
  cases ends : resolveUnmerged plainTools twoConflicts with
  | error failure =>
    rw [ends] at after
    cases after
  | ok final =>
    rw [ends] at after
    have keeps := always plainTools twoConflicts final ends
    have holds := keeps.oneSide ⟨"refs.conflict.e3b98a4.bib", ⟨some [116], none, some [117]⟩⟩
      (by decide) [117] (.inr ⟨rfl, rfl⟩)
    have file : final.repository.worktree "refs.conflict.e3b98a4.bib" = some [118] := some.inj after
    rw [holds.1] at file
    exact absurd file (by decide)

end Clepsydra.Sync
