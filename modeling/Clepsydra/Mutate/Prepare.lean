import Clepsydra.Mutate.Rollback

/-!
Owns: what `prepare` writes into its transaction directory, and that a prepared
transaction can be undone. The vault is untouched meanwhile.
-/

namespace Clepsydra.Mutate

open Library Library.Faulty Vault List Function

/-- The entries that `prepare` writes for an intent. -/
def BatchPathIntent.entries (index : Nat) : BatchPathIntent → List (Slot × ItemNode)
  | .write _ .missing content => [(.rollback index, .file []), (.staged index, .file content)]
  | .write _ (.bytes expected) content =>
    [(.rollback index, .file expected), (.staged index, .file content)]
  | .move _ _ expectedSource =>
    [(.rollback index, .file expectedSource), (.staged index, .file expectedSource)]
  | .delete _ expected => [(.rollback index, .file expected), (.staged index, .file [])]
  | .archivePage _ expectedSource manifest =>
    [(.rollback index, .file expectedSource),
      (.staged index, RubbishItem.toNode ⟨manifest, expectedSource⟩)]
  | .restorePage _ item => [(.staged index, .file item.bytes)]

theorem index_of_entries {intent : BatchPathIntent} {index : Nat} {pair : Slot × ItemNode}
    (member : pair ∈ intent.entries index) : pair.1.index = index := by
  cases intent with
  | write path expected content =>
    cases expected <;>
      simp only [BatchPathIntent.entries, mem_cons, not_mem_nil, or_false] at member <;>
      rcases member with isRollback | isStaged <;> simp_all [Slot.index]
  | move | delete | archivePage =>
    simp only [BatchPathIntent.entries, mem_cons, not_mem_nil, or_false] at member
    rcases member with isRollback | isStaged <;> simp_all [Slot.index]
  | restorePage => simp_all [BatchPathIntent.entries, Slot.index]

/-! ### A vault untouched but for one transaction directory -/

variable {disk origin : Disk} {id : Uuid} {property : Workspace → Prop}

def Holding (origin : Disk) (id : Uuid) (property : Workspace → Prop) (disk : Disk) : Prop :=
  disk.pages = origin.pages ∧ disk.rubbish = origin.rubbish ∧ disk.OthersQuiet id
    ∧ ∃ workspace, disk.workspace id = some workspace ∧ property workspace

theorem othersQuiet_update {change : Workspace → Workspace} (quiet : disk.OthersQuiet id) :
    (disk.update id change).OthersQuiet id := by
  intro other different
  rw [Disk.workspace_update, if_neg different]
  exact quiet other different

theorem Holding.update {property' : Workspace → Prop} {change : Workspace → Workspace}
    (holding : Holding origin id property disk)
    (changed : ∀ workspace, disk.workspace id = some workspace → property workspace →
      property' (change workspace)) :
    Holding origin id property' (disk.update id change) := by
  have ⟨pages, rubbish, quiet, workspace, found, known⟩ := holding
  refine ⟨pages, rubbish, othersQuiet_update quiet, change workspace, ?_, changed workspace found known⟩
  rw [Disk.workspace_update, if_pos rfl, found]
  rfl

theorem Holding.mono {property' : Workspace → Prop} (holding : Holding origin id property disk)
    (weaker : ∀ workspace, property workspace → property' workspace) :
    Holding origin id property' disk := by
  have ⟨pages, rubbish, quiet, workspace, found, known⟩ := holding
  exact ⟨pages, rubbish, quiet, workspace, found, weaker workspace known⟩

section Filling

variable {permits : Fault Bool → Prop} {invariant : Machine → Prop} {origin : Disk} {id : Uuid}

theorem keeps_fill {property property' : Workspace → Prop} {failure : IoError → BatchMutationError}
    {change : Disk → Except IoError Disk} (mayFail : MayFail permits)
    (holds : ∀ machine : Machine,
      Holding origin id (fun workspace => workspace.manifest = none) machine.disk → invariant machine)
    (before : ∀ workspace, property workspace → workspace.manifest = none)
    (after : ∀ workspace, property' workspace → workspace.manifest = none)
    (effect : ∀ disk next, Holding origin id property disk → change disk = .ok next →
      Holding origin id property' next) :
    Keeps permits invariant (fun machine => Holding origin id property machine.disk)
      (perform failure change) fun _ machine => Holding origin id property' machine.disk := by
  apply keeps_perform
  · exact fun machine holding => holds machine (holding.mono before)
  · exact fun _ _ => .inl mayFail
  · intro machine next holding changed
    have filled := effect machine.disk next holding changed
    exact ⟨filled, holds _ (filled.mono after)⟩

/-! ### Staged entries -/

structure Staging (command : BatchMutationCommand) (remaining : List (BatchPathIntent × Nat))
    (extra : List (Slot × ItemNode)) (workspace : Workspace) : Prop where
  noManifest : workspace.manifest = none
  flags : ∀ index < command.createDirectories.length, workspace.created index = true
  written : ∀ entry ∈ command.intents.zipIdx, entry ∈ remaining
    ∨ ∀ pair ∈ entry.1.entries entry.2, workspace.entries pair.1 = some pair.2
  extra : ∀ pair ∈ extra, workspace.entries pair.1 = some pair.2
  unwritten : ∀ slot, workspace.entries slot ≠ none →
    ∃ entry ∈ command.intents.zipIdx, slot ∈ (entry.1.entries entry.2).map Prod.fst

variable {command : BatchMutationCommand} {remaining : List (BatchPathIntent × Nat)}
  {extra : List (Slot × ItemNode)} {entry : BatchPathIntent × Nat} {disk next : Disk}

theorem staging_createEntry {slot : Slot} {node : ItemNode}
    (listed : entry ∈ command.intents.zipIdx)
    (isSlot : slot ∈ (entry.1.entries entry.2).map Prod.fst)
    (holding : Holding origin id (Staging command remaining extra) disk)
    (written : createEntry id slot node disk = .ok next) :
    Holding origin id (Staging command remaining ((slot, node) :: extra)) next := by
  unfold createEntry at written
  split at written
  · cases written
  · rename_i found isFound
    split at written
    · cases written
    · rename_i absent
      rw [← Except.ok.inj written]
      apply holding.update
      intro workspace isWorkspace staging
      rw [isFound] at isWorkspace
      rw [← Option.some.inj isWorkspace] at staging ⊢
      -- The slot was empty, so every entry written before is another one.
      have keeps : ∀ other value, found.entries other = some value →
          update found.entries slot (some node) other = some value := by
        intro other value isValue
        rw [update_of_ne]
        · exact isValue
        · intro same
          rw [same, absent] at isValue
          cases isValue
      refine ⟨staging.noManifest, staging.flags, ?_, ?_, ?_⟩
      · intro other inOther
        rcases staging.written other inOther with inRemaining | isWritten
        · exact .inl inRemaining
        · exact .inr fun pair inPair => keeps _ _ (isWritten pair inPair)
      · intro pair inPair
        rcases mem_cons.1 inPair with isNew | inExtra
        · rw [isNew]
          exact update_self ..
        · exact keeps _ _ (staging.extra pair inExtra)
      · intro other isThere
        by_cases isNew : other = slot
        · rw [isNew]
          exact ⟨entry, listed, isSlot⟩
        · apply staging.unwritten other
          simpa [update_of_ne isNew] using isThere

theorem staging_fillEntry {slot : Slot} {node : ItemNode} {fill : ItemNode → ItemNode}
    (listed : entry ∈ command.intents.zipIdx) (isIndex : slot.index = entry.2)
    (holding : Holding origin id (Staging command (entry :: remaining) [(slot, node)]) disk)
    (filled : fillEntry id slot fill disk = .ok next) :
    Holding origin id (Staging command (entry :: remaining) [(slot, fill node)]) next := by
  unfold fillEntry at filled
  split at filled
  · cases filled
  · rename_i found isFound
    rw [← Except.ok.inj filled]
    apply holding.update
    intro workspace isWorkspace staging
    have isNode := staging.extra (slot, node) mem_cons_self
    have same : found = node := by
      simp only [Disk.entry, isWorkspace, Option.bind_some] at isFound
      rw [isNode] at isFound
      exact (Option.some.inj isFound).symm
    rw [same]
    refine ⟨staging.noManifest, staging.flags, ?_, ?_, ?_⟩
    · intro other inOther
      by_cases isEntry : other = entry
      · rw [isEntry]
        exact .inl mem_cons_self
      · rcases staging.written other inOther with inRemaining | isWritten
        · exact .inl inRemaining
        · refine .inr fun pair inPair => ?_
          have different : pair.1 ≠ slot := by
            intro sameSlot
            have otherIndex := index_of_entries inPair
            rw [sameSlot, isIndex] at otherIndex
            exact isEntry (eq_of_mem_zipIdx inOther listed otherIndex.symm)
          show update workspace.entries slot _ pair.1 = _
          rw [update_of_ne different]
          exact isWritten pair inPair
    · intro pair inPair
      rw [mem_singleton.1 inPair]
      exact update_self ..
    · intro other isThere
      apply staging.unwritten other
      by_cases isSlot : other = slot
      · rw [isSlot, isNode]
        simp
      · simpa [update_of_ne isSlot] using isThere

theorem Staging.finish {workspace : Workspace}
    (staging : Staging command (entry :: remaining) (entry.1.entries entry.2) workspace) :
    Staging command remaining [] workspace := by
  refine { staging with written := ?_, extra := fun _ member => absurd member not_mem_nil }
  intro other inOther
  rcases staging.written other inOther with inRemaining | isWritten
  · rcases mem_cons.1 inRemaining with isEntry | inRest
    · rw [isEntry]
      exact .inr staging.extra
    · exact .inl inRest
  · exact .inr isWritten

section StageIntent

variable (mayFail : MayFail permits) (holds : ∀ machine : Machine,
    Holding origin id (fun workspace => workspace.manifest = none) machine.disk → invariant machine)

include mayFail holds

theorem keeps_writeEntry {slot : Slot} {content : Bytes} (listed : entry ∈ command.intents.zipIdx)
    (isSlot : slot ∈ (entry.1.entries entry.2).map Prod.fst) :
    Keeps permits invariant
      (fun machine => Holding origin id (Staging command remaining extra) machine.disk)
      (writeEntry id slot content)
      fun _ machine => Holding origin id
        (Staging command remaining ((slot, .file content) :: extra)) machine.disk := by
  apply keeps_fill mayFail holds
  · exact fun _ staging => staging.noManifest
  · exact fun _ staging => staging.noManifest
  · exact fun _ _ holding written => staging_createEntry listed isSlot holding written

theorem keeps_stageIntent (listed : entry ∈ command.intents.zipIdx) : Keeps permits invariant
      (fun machine => Holding origin id (Staging command (entry :: remaining) []) machine.disk)
      (stageIntent id entry.2 entry.1)
      fun _ machine => Holding origin id (Staging command remaining []) machine.disk := by
  have finished : Keeps permits invariant
      (fun machine => Holding origin id (Staging command (entry :: remaining) []) machine.disk)
      (stageIntent id entry.2 entry.1)
      fun _ machine => Holding origin id
        (Staging command (entry :: remaining) (entry.1.entries entry.2)) machine.disk := by
    have ⟨intent, index⟩ := entry
    cases intent with
    | write path expected content =>
      cases expected with
      | missing | bytes =>
        apply keeps_andThen (keeps_writeEntry mayFail holds listed (by simp [BatchPathIntent.entries]))
        intro _
        exact keeps_writeEntry mayFail holds listed (by simp [BatchPathIntent.entries])
    | move | delete =>
      apply keeps_andThen (keeps_writeEntry mayFail holds listed (by simp [BatchPathIntent.entries]))
      intro _
      exact keeps_writeEntry mayFail holds listed (by simp [BatchPathIntent.entries])
    | restorePage destination item =>
      exact keeps_writeEntry mayFail holds listed (by simp [BatchPathIntent.entries])
    | archivePage path expectedSource manifest =>
      have makes : Keeps permits invariant (fun machine => Holding origin id
            (Staging command ((.archivePage path expectedSource manifest, index) :: remaining) [])
            machine.disk)
          (perform (.filesystem "create directory" (.entry (.staged index)))
            (createEntry id (.staged index) (.directory none none)))
          fun _ machine => Holding origin id
            (Staging command ((.archivePage path expectedSource manifest, index) :: remaining)
              [(.staged index, .directory none none)]) machine.disk := by
        apply keeps_fill mayFail holds
        · exact fun _ staging => staging.noManifest
        · exact fun _ staging => staging.noManifest
        · intro disk next holding written
          exact staging_createEntry listed (by simp [BatchPathIntent.entries]) holding written
      have fills : ∀ node fill, Keeps permits invariant (fun machine => Holding origin id
            (Staging command ((.archivePage path expectedSource manifest, index) :: remaining)
              [(.staged index, node)]) machine.disk)
          (perform (writeFailure (.staged index)) (fillEntry id (.staged index) fill))
          fun _ machine => Holding origin id
            (Staging command ((.archivePage path expectedSource manifest, index) :: remaining)
              [(.staged index, fill node)]) machine.disk := by
        intro node fill
        apply keeps_fill mayFail holds
        · exact fun _ staging => staging.noManifest
        · exact fun _ staging => staging.noManifest
        · intro disk next holding written
          exact staging_fillEntry listed rfl holding written
      apply keeps_andThen makes
      intro _
      apply keeps_andThen (fills _ (ItemNode.withPage expectedSource))
      intro _
      apply keeps_andThen (fills _ (ItemNode.withManifest manifest))
      intro _
      exact keeps_writeEntry mayFail holds listed (by simp [BatchPathIntent.entries])
  apply keeps_mono finished (fun _ holding => holding)
  exact fun _ _ holding => holding.mono fun _ staging => staging.finish

end StageIntent

/-! ### Prepared directories -/

structure Flagging (command : BatchMutationCommand) (remaining : List Nat) (workspace : Workspace) :
    Prop where
  noManifest : workspace.manifest = none
  flags : ∀ index < command.createDirectories.length,
    index ∈ remaining ∨ workspace.created index = true
  noEntries : ∀ slot, workspace.entries slot = none

theorem flagging_createCreated {index : Nat} {rest : List Nat}
    (holding : Holding origin id (Flagging command (index :: rest)) disk)
    (created : createCreated id index disk = .ok next) :
    Holding origin id (Flagging command rest) next := by
  unfold createCreated at created
  split at created
  · cases created
  · split_ifs at created
    rw [← Except.ok.inj created]
    apply holding.update
    intro workspace _ flagging
    refine ⟨flagging.noManifest, ?_, flagging.noEntries⟩
    intro other inRange
    by_cases isIndex : other = index
    · rw [isIndex]
      exact .inr (update_self ..)
    · show _ ∨ update workspace.created index true other = true
      rw [update_of_ne isIndex]
      rcases flagging.flags other inRange with inRemaining | isSet
      · exact .inl ((mem_cons.1 inRemaining).resolve_left isIndex)
      · exact .inr isSet

theorem Flagging.staging {workspace : Workspace} (flagging : Flagging command [] workspace) :
    Staging command command.intents.zipIdx [] workspace where
  noManifest := flagging.noManifest
  flags := fun index inRange => (flagging.flags index inRange).resolve_left not_mem_nil
  written := fun _ member => .inl member
  extra := fun _ member => absurd member not_mem_nil
  unwritten := fun slot isThere => absurd (flagging.noEntries slot) isThere

end Filling

/-! ### A prepared transaction -/

structure Staged (command : BatchMutationCommand) (manifest : TransactionManifest)
    (workspace : Workspace) : Prop where
  isManifest : workspace.manifest = some manifest
  flags : ∀ index < command.createDirectories.length, workspace.created index = true
  written : ∀ entry ∈ command.intents.zipIdx, ∀ pair ∈ entry.1.entries entry.2,
    workspace.entries pair.1 = some pair.2
  unwritten : ∀ slot, workspace.entries slot ≠ none →
    ∃ entry ∈ command.intents.zipIdx, slot ∈ (entry.1.entries entry.2).map Prod.fst

def Untouched (origin : Disk) (id : Uuid) : Disk → Prop := Holding origin id fun workspace =>
    ∀ manifest, workspace.manifest = some manifest → manifest.phase = .prepared

theorem putManifest_ok {next : Disk} {manifest : TransactionManifest}
    (put : putManifest id manifest disk = .ok next) :
    next = disk.update id fun workspace => { workspace with manifest := some manifest } := by
  unfold putManifest at put
  split at put
  · cases put
  · exact (Except.ok.inj put).symm

section Prepare

variable {contentHash : Bytes → Hash} {permits : Fault Bool → Prop} {invariant : Machine → Prop}
  {origin : Disk} {id : Uuid} {command : BatchMutationCommand} (mayFail : MayFail permits)
  (holds : ∀ machine : Machine, Untouched origin id machine.disk → invariant machine)

include mayFail holds

theorem keeps_fillWorkspace : Keeps permits invariant
      (fun machine => Holding origin id (fun workspace => workspace = Workspace.empty) machine.disk)
      (fillWorkspace contentHash id command)
      fun _ machine => machine.prepared = ⟨preparedManifest contentHash command, false⟩
        ∧ Holding origin id (Staged command (preparedManifest contentHash command)) machine.disk := by
  have holdsFilling : ∀ machine : Machine,
      Holding origin id (fun workspace => workspace.manifest = none) machine.disk →
      invariant machine := by
    intro machine holding
    apply holds
    apply holding.mono
    intro workspace noManifest manifest isManifest
    rw [noManifest] at isManifest
    cases isManifest
  have directories : Keeps permits invariant (fun machine => Holding origin id
        (Flagging command (List.range command.createDirectories.length)) machine.disk)
      (Program.forEach (fun index => perform (.filesystem "create directory" (.created index))
          (createCreated id index))
        (List.range command.createDirectories.length))
      fun _ machine => Holding origin id (Flagging command []) machine.disk := by
    apply keeps_forEach fun rest machine => Holding origin id (Flagging command rest) machine.disk
    intro index rest _
    apply keeps_fill mayFail holdsFilling
    · exact fun _ flagging => flagging.noManifest
    · exact fun _ flagging => flagging.noManifest
    · exact fun _ _ holding created => flagging_createCreated holding created
  have entries : Keeps permits invariant
      (fun machine => Holding origin id (Staging command command.intents.zipIdx []) machine.disk)
      (Program.forEach (fun (entry : BatchPathIntent × Nat) => stageIntent id entry.2 entry.1)
        command.intents.zipIdx)
      fun _ machine => Holding origin id (Staging command [] []) machine.disk := by
    apply keeps_forEach fun rest machine => Holding origin id (Staging command rest []) machine.disk
    intro entry rest isEnd
    exact keeps_stageIntent mayFail holdsFilling (isEnd.subset mem_cons_self)
  have manifestWritten : ∀ disk next, Holding origin id (Staging command [] []) disk →
      putManifest id (preparedManifest contentHash command) disk = .ok next →
      Holding origin id (Staged command (preparedManifest contentHash command)) next := by
    intro disk next holding put
    rw [putManifest_ok put]
    apply holding.update
    intro workspace _ staging
    refine ⟨rfl, staging.flags, ?_, staging.unwritten⟩
    intro entry listed
    exact (staging.written entry listed).resolve_left not_mem_nil
  have untouched : ∀ machine : Machine,
      Holding origin id (Staged command (preparedManifest contentHash command)) machine.disk →
      invariant machine := by
    intro machine holding
    apply holds
    apply holding.mono
    intro workspace staged manifest isManifest
    rw [staged.isManifest] at isManifest
    rw [← Option.some.inj isManifest]
    rfl
  have manifest : Keeps permits invariant
      (fun machine => Holding origin id (Staging command [] []) machine.disk)
      (publishManifest id (preparedManifest contentHash command))
      fun _ machine => machine.prepared = ⟨preparedManifest contentHash command, false⟩
        ∧ Holding origin id (Staged command (preparedManifest contentHash command))
          machine.disk := by
    apply keeps_step mayFail
    · exact fun machine holding => holdsFilling machine (holding.mono fun _ staging => staging.noManifest)
    · intro machine value holding result
      cases put : putManifest id (preparedManifest contentHash command) machine.disk with
      | error source => simp [put] at result
      | ok next => simpa [put] using manifestWritten _ _ holding put
    · intro machine failure holding result
      cases put : putManifest id (preparedManifest contentHash command) machine.disk with
      | error source =>
        simp only
        exact holdsFilling machine (holding.mono fun _ staging => staging.noManifest)
      | ok next => simp [put] at result
    · intro machine applied holding
      have unchanged := holdsFilling machine (holding.mono fun _ staging => staging.noManifest)
      cases applied with
      | false => exact unchanged
      | true =>
        simp only [if_true, Machine.apply]
        cases put : putManifest id (preparedManifest contentHash command) machine.disk with
        | error source => exact unchanged
        | ok next => exact untouched _ (manifestWritten _ _ holding put)
  apply keeps_andThen
  · apply keeps_mono directories
    · intro machine holding
      apply holding.mono
      intro workspace isEmpty
      rw [isEmpty]
      exact ⟨rfl, fun index inRange => .inl (mem_range.2 inRange), fun _ => rfl⟩
    · exact fun _ _ post => post
  intro _
  apply keeps_andThen
  · apply keeps_mono entries
    · exact fun _ holding => holding.mono fun _ flagging => flagging.staging
    · exact fun _ _ post => post
  intro _
  exact manifest

end Prepare

theorem undoEntry_mem_entries {intent : BatchPathIntent} {index : Nat} {slot : Slot} {content : Bytes}
    (isEntry : intent.undoEntry index = some (slot, content)) :
    (slot, ItemNode.file content) ∈ intent.entries index := by
  cases intent with
  | write path expected bytes =>
    cases expected with
    | missing => cases isEntry
    | bytes before =>
      cases isEntry
      exact mem_cons_self
  | move | delete | archivePage | restorePage =>
    cases isEntry
    exact mem_cons_self

theorem Holding.entry (holding : Holding origin id property disk) :
    ∃ workspace, disk.workspace id = some workspace ∧ property workspace
      ∧ ∀ slot, disk.entry id slot = workspace.entries slot := by
  have ⟨_, _, _, workspace, found, known⟩ := holding
  refine ⟨workspace, found, known, fun slot => ?_⟩
  simp [Disk.entry, found]

theorem undoable_of_staged {command : BatchMutationCommand} {manifest : TransactionManifest}
    (accepted : Accepted origin command)
    (holding : Holding origin id (Staged command manifest) disk) :
    Undoable origin command id manifest [] [] [] disk := by
  have ⟨workspace, found, staged, entries⟩ := holding.entry
  have ⟨pages, rubbish, quiet, _⟩ := holding
  have none : ∀ {α : Type} {element : α}, element ∉ ([] : List α) := not_mem_nil
  refine
    { pages := fun path => .inl (by rw [pages])
      rubbish := fun item => .inl (by rw [rubbish])
      remainingListed := fun _ member => absurd member none
      createdListed := fun _ member => absurd member none
      removedListed := fun _ member => absurd member none
      files := ?_
      items := ?_
      installed := fun _ member => absurd member none
      createdOrder := fun _ _ _ member => absurd member none
      removedOrder := fun _ _ _ member => absurd member none
      recorded := ?_
      othersQuiet := quiet }
  · intro entry listed slot content isEntry
    rw [entries]
    exact staged.written entry listed _ (undoEntry_mem_entries isEntry)
  · intro entry listed slot item isSlot
    have observed := accepted.observed entry.1 (Accepted.mem_intents listed)
    rw [entries, rubbish]
    have ⟨intent, index⟩ := entry
    cases intent with
    | write | move | delete => cases isSlot
    | archivePage path expectedSource itemManifest =>
      cases isSlot
      exact .inl ⟨observed.2.1, staged.written _ listed _ (mem_cons_of_mem _ mem_cons_self)⟩
    | restorePage destination restored =>
      cases isSlot
      refine .inr ⟨observed.2.2.1, ?_⟩
      -- Only the intent itself could have written that slot, and it did not.
      by_contra isThere
      have ⟨other, inOther, isSlot⟩ := staged.unwritten _ isThere
      have ⟨pair, inEntries, same⟩ := mem_map.1 isSlot
      have sameIndex := index_of_entries inEntries
      rw [same] at sameIndex
      have isEntry := eq_of_mem_zipIdx listed inOther sameIndex
      rw [← isEntry] at isSlot
      simp [BatchPathIntent.entries] at isSlot
  · rw [found]
    exact staged.isManifest

end Clepsydra.Mutate
