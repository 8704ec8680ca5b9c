import Clepsydra.Mutate.Commit

/-!
Owns: batches that are stopped anywhere, and the recovery that follows.

Proves: recovery succeeds, and leaves the vault as the phase on disk says; and the same after any
number of interrupted recoveries.
-/

namespace Clepsydra.Mutate

open Library Library.Faulty Vault List

/-! ### Whole batches -/

def Removable (contentHash : Bytes → Hash) (origin : Disk) (command : BatchMutationCommand)
    (id : Uuid) (disk : Disk) : Prop :=
  (RecoversTo contentHash origin command id origin.vault disk ∧ disk.vault = origin.vault
      ∧ disk.durablePhase id ≠ some .filesystemCommitted)
    ∨ (disk.OthersQuiet id ∧ disk.vault = vaultAfter origin command
      ∧ disk.durablePhase id = some .filesystemCommitted)

section Batches

variable {contentHash : Bytes → Hash} {permits : Fault Bool → Prop} {origin : Disk}
  {command : BatchMutationCommand} {id : Uuid} {leaving : Prop} {remove : Batch Unit}

theorem Removable.crashed {disk : Disk} (removable : Removable contentHash origin command id disk) :
    Crashed contentHash origin command id leaving disk := by
  rcases removable with ⟨recovers, _, phase⟩ | ⟨quiet, vault, phase⟩
  · exact .inl ⟨recovers, phase⟩
  · exact .inr ⟨.inl ⟨quiet, vault, by simp [phase]⟩, .inl phase⟩

theorem removable_of_untouched {disk : Disk} (untouched : Untouched origin id disk) :
    Removable contentHash origin command id disk := by
  have both : RecoversTo contentHash origin command id origin.vault disk
      ∧ disk.durablePhase id ≠ some .filesystemCommitted := untouched.recoversTo
  exact .inl ⟨both.1, untouched.vault, both.2⟩

theorem removable_of_restored {disk : Disk} {manifest : TransactionManifest}
    (accepted : Accepted origin command) (follows : manifest.Follows contentHash command)
    (committing : manifest.phase = .committing)
    (undoable : Undoable origin command id manifest [] [] [] disk) :
    Removable contentHash origin command id disk := by
  have isCommitting : Committing contentHash origin command id disk :=
    ⟨accepted, manifest, follows, committing,
      undone_of_undoable accepted follows undoable (nil_sublist _) (nil_sublist _)⟩
  refine .inl ⟨.inr ⟨rfl, isCommitting⟩, ?_, by simp [isCommitting.durablePhase]⟩
  have restored := undoable.restored
  rw [Disk.vault, Disk.vault, restored.1, restored.2]

variable (injective : Function.Injective contentHash) (mayFail : MayFail permits)
  (straight : Straight command.removeDirectories)
  (removes : Keeps permits (fun machine => Crashed contentHash origin command id leaving machine.disk)
    (fun machine => Removable contentHash origin command id machine.disk) remove
    fun _ machine => Crashed contentHash origin command id leaving machine.disk)

include injective mayFail straight removes in
theorem keeps_rollback (accepted : Accepted origin command) :
    Keeps permits (fun machine => Crashed contentHash origin command id leaving machine.disk)
      (InProcess contentHash origin command id leaving) (rollback contentHash id remove)
      fun _ machine => Crashed contentHash origin command id leaving machine.disk := by
  have certain : Keeps permits
      (fun machine => Crashed contentHash origin command id leaving machine.disk)
      (InProcess contentHash origin command id leaving) ensurePhaseCertain
      fun _ machine => (machine.prepared.manifest.phase = .prepared
          ∧ Untouched origin id machine.disk)
        ∨ Underway contentHash origin command id machine := by
    unfold ensurePhaseCertain
    apply keeps_branch
    intro machine inProcess
    have crashed := inProcess.crashed accepted
    rcases inProcess with ⟨isCertain, prepared, untouched⟩ | underway | ⟨isUncertain, _⟩
    · rw [isCertain]
      apply keeps_done
      intro current same
      rw [same]
      exact .inl ⟨prepared, untouched⟩
    · rw [underway.certain]
      apply keeps_done
      intro current same
      rw [same]
      exact .inr underway
    · rw [isUncertain]
      apply keeps_fail
      · intro current same
        rw [same]
        exact crashed
      · exact fun _ _ => mayFail
  unfold rollback
  apply keeps_andThen certain
  intro _
  refine @keeps_andThen _ _ _ _ _ _ _
    (fun _ machine => Removable contentHash origin command id machine.disk) _ ?_ fun _ => removes
  · apply keeps_branch
    intro machine isOne
    rcases isOne with ⟨prepared, untouched⟩ | underway
    · rw [prepared]
      apply keeps_done
      intro current same
      rw [same]
      exact removable_of_untouched untouched
    · rw [underway.committing]
      obtain ⟨manifest, follows, committing, undone, listsMore⟩ := underway.undone
      have rollsBack : Keeps permits
          (fun machine => Crashed contentHash origin command id leaving machine.disk)
          (fun machine => Undone origin command id manifest machine.disk)
          (rollbackManifest contentHash id machine.prepared.manifest)
          fun _ machine => Undoable origin command id manifest [] [] [] machine.disk := by
        apply keeps_rollbackManifest injective accepted straight underway.follows listsMore
        exact fun _ undone => crashed_of_committing ⟨accepted, manifest, follows, committing, undone⟩
      apply keeps_mono (keeps_at rollsBack undone) (fun _ same => same)
      exact fun _ current undoable => removable_of_restored accepted follows committing undoable

/-! ### Preparation -/

theorem holding_of_createTransaction {next : Disk} (fresh : origin.workspace id = none)
    (quiet : origin.OthersQuiet id) (made : createTransaction id origin = .ok next) :
    Holding origin id (fun workspace => workspace = Workspace.empty) next := by
  unfold createTransaction at made
  rw [fresh] at made
  have same := Except.ok.inj made
  have absent : origin.transactions.get id = none := by
    simpa [Disk.workspace] using fresh
  have workspaces : ∀ other, next.workspace other
      = if other = id then some Workspace.empty else origin.workspace other := by
    intro other
    rw [← same]
    unfold Disk.workspace
    simp only [Table.get_insertOrIgnore]
    by_cases isId : other = id
    · rw [isId, if_pos ⟨rfl, absent⟩, if_pos rfl]
      rfl
    · rw [if_neg (fun both => isId both.1.symm), if_neg isId]
  refine ⟨by rw [← same], by rw [← same], ?_, Workspace.empty, ?_, rfl⟩
  · intro other different
    rw [workspaces, if_neg different]
    exact quiet other different
  · rw [workspaces, if_pos rfl]

include mayFail removes in
theorem keeps_prepare (planned : Planned command) (fresh : origin.workspace id = none)
    (quiet : origin.OthersQuiet id) :
    Keeps permits (fun machine => Crashed contentHash origin command id leaving machine.disk)
      (fun machine => machine.disk = origin) (prepare contentHash id remove command)
      fun _ machine => Accepted origin command ∧ Ready contentHash origin command id machine := by
  have unchanged : ∀ machine : Machine, machine.disk = origin →
      Crashed contentHash origin command id leaving machine.disk := by
    intro machine same
    have noPhase : origin.durablePhase id = none := by simp [Disk.durablePhase, fresh]
    rw [same]
    exact .inl ⟨.inl ⟨quiet, rfl, by simp [noPhase]⟩, by simp [noPhase]⟩
  have fills : Keeps permits (fun machine => Untouched origin id machine.disk)
      (fun machine => Holding origin id (fun workspace => workspace = Workspace.empty) machine.disk)
      (fillWorkspace contentHash id command) fun _ => Ready contentHash origin command id :=
    keeps_fillWorkspace mayFail fun _ untouched => untouched
  have cleansUp : Keeps permits
      (fun machine => Crashed contentHash origin command id leaving machine.disk)
      (fun machine => Untouched origin id machine.disk) (Program.attempt remove)
      fun _ machine => Crashed contentHash origin command id leaving machine.disk := by
    apply keeps_mono (keeps_attempt removes)
    · exact fun _ untouched => removable_of_untouched untouched
    · intro result machine handled
      cases result with
      | ok value => exact handled
      | error cleanup => exact handled.1
  unfold prepare
  apply keeps_branch
  intro machine same
  cases checked : validate machine.disk command with
  | error failure =>
    apply keeps_fail
    · intro current isMachine
      rw [isMachine]
      exact unchanged machine same
    · exact fun _ _ => mayFail
  | ok value =>
    rw [same] at checked
    have accepted := accepted_of_validate planned checked
    have makes : Keeps permits
        (fun machine => Crashed contentHash origin command id leaving machine.disk)
        (fun current => current = machine)
        (perform (.filesystem "create directory" .directory) (createTransaction id))
        fun _ machine => Holding origin id (fun workspace => workspace = Workspace.empty)
          machine.disk := by
      apply keeps_perform
      · intro current isMachine
        rw [isMachine]
        exact unchanged machine same
      · exact fun _ _ => .inl mayFail
      · intro current disk isMachine made
        rw [isMachine, same] at made
        have holding := holding_of_createTransaction fresh quiet made
        refine ⟨holding, .inl (Untouched.recoversTo ?_)⟩
        apply holding.mono
        intro workspace isEmpty manifest isManifest
        rw [isEmpty] at isManifest
        cases isManifest
    apply keeps_andThen makes
    intro _
    apply keeps_andThen (keeps_weaken (keeps_attempt fills)
      fun _ untouched => .inl (Untouched.recoversTo untouched))
    intro result
    cases result with
    | ok value => exact keeps_done fun _ ready => ⟨accepted, ready⟩
    | error failure =>
      apply keeps_andThen (keeps_mono cleansUp (fun _ handled => handled.1) fun _ _ post => post)
      intro cleaned
      cases cleaned with
      | ok value => exact keeps_fail (fun _ crashed => crashed) fun _ _ => mayFail
      | error cleanup =>
        apply keeps_branch
        intro machine crashed
        apply keeps_fail
        · intro current same
          rw [same]
          exact crashed
        · exact fun _ _ => mayFail

/-! ### Execution -/

include injective mayFail straight removes in
theorem keeps_publishBatch (planned : Planned command) (fresh : origin.workspace id = none)
    (quiet : origin.OthersQuiet id) :
    Keeps permits (fun machine => Crashed contentHash origin command id leaving machine.disk)
      (fun machine => machine.disk = origin) (publishBatch contentHash id remove command)
      fun _ machine => Accepted origin command
        ∧ if command.containsRubbishLifecycle then Clearing contentHash origin command id [] machine
          else Marked origin command id machine := by
  unfold publishBatch
  apply keeps_andThen (keeps_prepare mayFail removes planned fresh quiet)
  intro _
  apply keeps_known fun _ both => both.1
  intro accepted
  have publishes : Keeps permits (InProcess contentHash origin command id leaving)
      (Ready contentHash origin command id)
      (publish contentHash id >>= fun _ =>
        if command.containsRubbishLifecycle then Program.done () else markFilesystemCommitted id)
      fun _ machine =>
        if command.containsRubbishLifecycle then Clearing contentHash origin command id [] machine
        else Marked origin command id machine := by
    apply keeps_andThen (keeps_publish injective mayFail accepted)
    intro _
    split_ifs with lifecycle
    · exact keeps_done fun _ clearing => clearing
    · exact keeps_markFilesystemCommitted mayFail accepted
  have attempts := keeps_weaken (keeps_attempt publishes) fun _ inProcess => inProcess.crashed accepted
  apply keeps_andThen (keeps_mono attempts (fun _ both => both.2) fun _ _ post => post)
  intro publication
  cases publication with
  | ok value => exact keeps_done fun _ published => ⟨accepted, published⟩
  | error failure =>
    have rollsBack := keeps_rollback injective mayFail straight removes accepted
    apply keeps_andThen (keeps_mono rollsBack (fun _ handled => handled.1) fun _ _ post => post)
    intro _
    exact keeps_fail (fun _ crashed => crashed) fun _ _ => mayFail

include injective mayFail straight removes in
theorem keeps_executeBatch (planned : Planned command) (fresh : origin.workspace id = none)
    (quiet : origin.OthersQuiet id) (reindexed : Bool) :
    Keeps permits (fun machine => Crashed contentHash origin command id leaving machine.disk)
      (fun machine => machine.disk = origin)
      (executeBatch contentHash id remove command reindexed)
      fun _ machine => Crashed contentHash origin command id leaving machine.disk := by
  have marked : ∀ machine, Marked origin command id machine →
      Removable contentHash origin command id machine.disk :=
    fun _ isMarked => .inr isMarked.2.2
  have finishes : Keeps permits
      (fun machine => Crashed contentHash origin command id leaving machine.disk)
      (Marked origin command id) (finish remove)
      fun _ machine => Crashed contentHash origin command id leaving machine.disk := by
    unfold finish
    apply keeps_andThen (keeps_ensurePhaseCertain fun _ isMarked => isMarked.1)
    intro _
    apply keeps_branch
    intro machine isMarked
    rw [if_pos isMarked.2.1]
    exact keeps_at removes (marked machine isMarked)
  unfold executeBatch
  apply keeps_andThen (keeps_publishBatch injective mayFail straight removes planned fresh quiet)
  intro _
  apply keeps_known fun _ both => both.1
  intro accepted
  have marks : Keeps permits
      (fun machine => Crashed contentHash origin command id leaving machine.disk)
      (Clearing contentHash origin command id []) (markFilesystemCommitted id)
      fun _ => Marked origin command id :=
    keeps_weaken (keeps_markFilesystemCommitted mayFail accepted)
      fun _ (inProcess : InProcess contentHash origin command id leaving _) => inProcess.crashed accepted
  have returns : Keeps permits
      (fun machine => Crashed contentHash origin command id leaving machine.disk)
      (fun machine => Crashed contentHash origin command id leaving machine.disk)
      (Program.done reindexed : Batch Bool)
      fun _ machine => Crashed contentHash origin command id leaving machine.disk :=
    keeps_done fun _ crashed => crashed
  by_cases lifecycle : command.containsRubbishLifecycle
  · simp only [lifecycle, if_true]
    apply keeps_mono _ (fun _ both => both.2) fun _ _ post => post
    cases reindexed with
    | true => exact keeps_andThen marks fun _ => keeps_andThen finishes fun _ => returns
    | false =>
      have rollsBack := keeps_rollback injective mayFail straight removes accepted
      apply keeps_andThen (keeps_mono rollsBack _ fun _ _ post => post) fun _ => returns
      exact fun _ clearing => .inr (.inl (clearing.underway accepted))
  · simp only [lifecycle]
    apply keeps_mono _ (fun _ both => both.2) fun _ _ post => post
    cases reindexed with
    | true =>
      exact keeps_andThen (keeps_done fun _ isMarked => isMarked) fun _ =>
        keeps_andThen finishes fun _ => returns
    | false =>
      exact keeps_andThen (keeps_done fun machine isMarked => (marked machine isMarked).crashed)
        fun _ => returns

end Batches

/-! ### Removing a transaction directory -/

section Removal

variable {permits : Fault Bool → Prop} {invariant : Machine → Prop} {id other : Uuid}
  {order : List WorkName}

def Disk.eraseTransaction (disk : Disk) (id : Uuid) : Disk :=
  { disk with transactions := disk.transactions.erase id }

theorem workspace_eraseTransaction (disk : Disk) (id other : Uuid) :
    (disk.eraseTransaction id).workspace other = if other = id then none else disk.workspace other := by
  unfold Disk.workspace Disk.eraseTransaction
  rw [Table.get_erase]
  split_ifs with isId
  · rfl
  · rfl

theorem keeps_removeWorkspace (property : List WorkName → Disk → Prop) (after : Disk → Prop)
    (holds : ∀ rest (machine : Machine), property rest machine.disk → invariant machine)
    (holdsAfter : ∀ machine : Machine, after machine.disk → invariant machine)
    (each : ∀ name rest disk, property (name :: rest) disk →
      property rest (disk.update id (Workspace.unlink name)))
    (last : ∀ disk, property [] disk → after (disk.eraseTransaction id)) :
    Keeps permits invariant (fun machine => property order machine.disk) (removeWorkspace id order)
      fun _ machine => after machine.disk := by
  unfold removeWorkspace
  have unlinks : Keeps permits invariant (fun machine => property order machine.disk)
      (Program.forEach (fun name => perform removalFailure
          fun disk => .ok (disk.update id (Workspace.unlink name))) order)
      fun _ machine => property [] machine.disk := by
    apply keeps_forEach fun rest (machine : Machine) => property rest machine.disk
    intro name rest _
    apply keeps_perform
    · exact fun machine pre => holds _ machine pre
    · exact fun _ _ => .inr ⟨_, rfl⟩
    · intro machine disk pre unlinked
      have kept := each name rest machine.disk pre
      rw [← Except.ok.inj unlinked]
      exact ⟨kept, holds _ _ kept⟩
  apply keeps_andThen unlinks
  intro _
  apply keeps_perform
  · exact fun machine pre => holds _ machine pre
  · exact fun _ _ => .inr ⟨_, rfl⟩
  · intro machine disk pre erased
    have kept := last machine.disk pre
    rw [← Except.ok.inj erased]
    exact ⟨kept, holdsAfter _ kept⟩

theorem manifest_unlink (name : WorkName) (workspace : Workspace) :
    (workspace.unlink name).manifest = workspace.manifest
      ∨ (workspace.unlink name).manifest = none := by
  cases name with
  | manifest => exact .inr rfl
  | entry | page | itemManifest | created => exact .inl rfl

theorem durablePhase_unlink (disk : Disk) (name : WorkName) :
    (disk.update id (Workspace.unlink name)).durablePhase other = disk.durablePhase other
      ∨ (disk.update id (Workspace.unlink name)).durablePhase other = none := by
  unfold Disk.durablePhase
  rw [Disk.workspace_update]
  split_ifs with isId
  · rw [isId]
    cases disk.workspace id with
    | none => exact .inl rfl
    | some workspace =>
      rcases manifest_unlink name workspace with same | gone
      · exact .inl (by simp [same])
      · exact .inr (by simp [gone])
  · exact .inl rfl

theorem othersQuiet_iff {disk : Disk} :
    disk.OthersQuiet id ↔ ∀ other, other ≠ id → disk.durablePhase other ≠ some .committing := by
  constructor
  · intro quiet other different isCommitting
    have ⟨manifest, recorded, phase⟩ := Option.map_eq_some_iff.1 isCommitting
    exact quiet other different manifest recorded phase
  · intro quiet other different manifest recorded phase
    apply quiet other different
    rw [Disk.durablePhase, recorded, Option.map_some, phase]

theorem durablePhase_eraseTransaction (disk : Disk) :
    (disk.eraseTransaction id).durablePhase other = disk.durablePhase other
      ∨ (disk.eraseTransaction id).durablePhase other = none := by
  unfold Disk.durablePhase
  rw [workspace_eraseTransaction]
  split_ifs with isId
  · exact .inr rfl
  · exact .inl rfl

variable {target : (VaultPath → Option Node) × (Uuid → Option ItemNode)}

theorem SettledTo.less {disk next : Disk} (settled : SettledTo id target disk)
    (vault : next.vault = disk.vault)
    (phases : ∀ other, next.durablePhase other = disk.durablePhase other
      ∨ next.durablePhase other = none) : SettledTo id target next := by
  have ⟨quiet, isTarget, phase⟩ := settled
  have notCommitting : ∀ other, disk.durablePhase other ≠ some .committing →
      next.durablePhase other ≠ some .committing := by
    intro other before after
    rcases phases other with same | gone
    · exact before (same.symm.trans after)
    · rw [gone] at after
      cases after
  refine ⟨othersQuiet_iff.2 fun other different => ?_, vault.trans isTarget, notCommitting id phase⟩
  exact notCommitting other (othersQuiet_iff.1 quiet other different)

theorem keeps_removeSettled {removed : Uuid}
    (holds : ∀ machine : Machine, SettledTo id target machine.disk → invariant machine) :
    Keeps permits invariant (fun machine => SettledTo id target machine.disk)
      (removeWorkspace removed order) fun _ machine => SettledTo id target machine.disk := by
  apply keeps_removeWorkspace (fun _ => SettledTo id target) (SettledTo id target)
  · exact fun _ => holds
  · exact holds
  · exact fun name _ disk settled => settled.less rfl fun other => durablePhase_unlink disk name
  · exact fun disk settled => settled.less rfl fun other => durablePhase_eraseTransaction disk

end Removal

section Others

variable {contentHash : Bytes → Hash} {permits : Fault Bool → Prop} {invariant : Machine → Prop}
  {origin : Disk} {command : BatchMutationCommand} {id removed : Uuid}
  {target : (VaultPath → Option Node) × (Uuid → Option ItemNode)} {order : List WorkName}

theorem Undoable.others {disk next : Disk} {manifest : TransactionManifest}
    {remaining : List (BatchPathIntent × Nat)} {created gone : List VaultPath}
    (undoable : Undoable origin command id manifest remaining created gone disk)
    (pages : next.pages = disk.pages) (rubbish : next.rubbish = disk.rubbish)
    (workspace : next.workspace id = disk.workspace id) (quiet : next.OthersQuiet id) :
    Undoable origin command id manifest remaining created gone next := by
  have entries : ∀ slot, next.entry id slot = disk.entry id slot := by
    intro slot
    rw [Disk.entry, workspace]
    rfl
  exact
    { pages := pages ▸ undoable.pages
      rubbish := rubbish ▸ undoable.rubbish
      remainingListed := undoable.remainingListed
      createdListed := undoable.createdListed
      removedListed := undoable.removedListed
      files := fun entry listed slot content isEntry =>
        (entries slot).trans (undoable.files entry listed slot content isEntry)
      items := fun entry listed slot item isSlot => by
        rw [entries, rubbish]
        exact undoable.items entry listed slot item isSlot
      installed := by
        rw [pages, workspace]
        exact undoable.installed
      createdOrder := pages ▸ undoable.createdOrder
      removedOrder := pages ▸ undoable.removedOrder
      recorded := workspace ▸ undoable.recorded
      othersQuiet := quiet }

theorem RecoversTo.others {disk next : Disk}
    (recovers : RecoversTo contentHash origin command id target disk)
    (pages : next.pages = disk.pages) (rubbish : next.rubbish = disk.rubbish)
    (workspace : next.workspace id = disk.workspace id)
    (phases : ∀ other, next.durablePhase other = disk.durablePhase other
      ∨ next.durablePhase other = none) :
    RecoversTo contentHash origin command id target next := by
  rcases recovers with settled | ⟨isTarget, accepted, manifest, follows, committing, undone⟩
  · refine .inl (settled.less ?_ phases)
    rw [Disk.vault, Disk.vault, pages, rubbish]
  · refine .inr ⟨isTarget, accepted, manifest, follows, committing, undone.others pages rubbish
      workspace (othersQuiet_iff.2 fun other different after => ?_)⟩
    rcases phases other with same | gone
    · exact othersQuiet_iff.1 undone.othersQuiet other different (same.symm.trans after)
    · rw [gone] at after
      cases after

def Recovering (contentHash : Bytes → Hash) (origin : Disk) (command : BatchMutationCommand)
    (id : Uuid) (target : (VaultPath → Option Node) × (Uuid → Option ItemNode))
    (directories : List Uuid) (disk : Disk) : Prop :=
  RecoversTo contentHash origin command id target disk
    ∧ (id ∈ directories ∨ SettledTo id target disk)

theorem keeps_removeOther {directories : List Uuid} (different : removed ≠ id)
    (holds : ∀ machine : Machine, RecoversTo contentHash origin command id target machine.disk →
      invariant machine) :
    Keeps permits invariant
      (fun machine => Recovering contentHash origin command id target directories machine.disk)
      (removeWorkspace removed order)
      fun _ machine => Recovering contentHash origin command id target directories machine.disk := by
  apply keeps_removeWorkspace (fun _ => Recovering contentHash origin command id target directories)
    (Recovering contentHash origin command id target directories)
  · exact fun _ machine recovering => holds machine recovering.1
  · exact fun machine recovering => holds machine recovering.1
  · intro name _ disk recovering
    refine ⟨recovering.1.others rfl rfl ?_ fun other => durablePhase_unlink disk name, ?_⟩
    · rw [Disk.workspace_update, if_neg (Ne.symm different)]
    · exact recovering.2.imp_right fun settled =>
        settled.less rfl fun other => durablePhase_unlink disk name
  · intro disk recovering
    refine ⟨recovering.1.others rfl rfl ?_ fun other => durablePhase_eraseTransaction disk, ?_⟩
    · rw [workspace_eraseTransaction, if_neg (Ne.symm different)]
    · exact recovering.2.imp_right fun settled =>
        settled.less rfl fun other => durablePhase_eraseTransaction disk

end Others

/-! ### Recovery -/

section Recover

variable {contentHash : Bytes → Hash} {permits : Fault Bool → Prop} {invariant : Machine → Prop}
  {origin : Disk} {command : BatchMutationCommand} {id : Uuid}
  {target : (VaultPath → Option Node) × (Uuid → Option ItemNode)} {removal : Uuid → List WorkName}
  (injective : Function.Injective contentHash) (straight : Straight command.removeDirectories)
  (holds : ∀ machine : Machine, RecoversTo contentHash origin command id target machine.disk →
    invariant machine)
  (removesUndone : Accepted origin command → ∀ manifest : TransactionManifest,
    manifest.Follows contentHash command → manifest.phase = .committing → target = origin.vault →
    Keeps permits invariant (fun machine => Undoable origin command id manifest [] [] [] machine.disk)
      (removeWorkspace id (removal id)) fun _ machine => SettledTo id target machine.disk)

include injective straight holds removesUndone in
theorem keeps_recoverOwn : Keeps permits invariant
      (fun machine => RecoversTo contentHash origin command id target machine.disk)
      (recoverTransaction contentHash removal id)
      fun _ machine => SettledTo id target machine.disk := by
  have settled : Keeps permits invariant (fun machine => SettledTo id target machine.disk)
      (removeWorkspace id (removal id)) fun _ machine => SettledTo id target machine.disk :=
    keeps_removeSettled fun machine isSettled => holds machine (.inl isSettled)
  have returns : ∀ result : Option RecoveredBatch, Keeps permits invariant
      (fun machine => SettledTo id target machine.disk) (Program.done result)
      fun _ machine => SettledTo id target machine.disk :=
    fun _ => keeps_done fun _ isSettled => isSettled
  unfold recoverTransaction
  apply keeps_branch
  intro machine recovers
  rcases recovers with isSettled | ⟨isTarget, accepted, manifest, follows, committing, undone⟩
  · have notCommitting := isSettled.2.2
    cases recorded : (machine.disk.workspace id).bind Workspace.manifest with
    | none => exact keeps_at (keeps_andThen settled fun _ => returns none) isSettled
    | some manifest =>
      rw [Disk.durablePhase, recorded, Option.map_some] at notCommitting
      cases phase : manifest.phase with
      | prepared =>
        simp only [phase]
        exact keeps_at (keeps_andThen settled fun _ => returns none) isSettled
      | committing => exact absurd (congrArg some phase) notCommitting
      | filesystemCommitted =>
        simp only [phase]
        exact keeps_at (returns _) isSettled
  · simp only [undone.recorded, committing]
    have rollsBack : Keeps permits invariant
        (fun machine => Undone origin command id manifest machine.disk)
        (rollbackManifest contentHash id manifest)
        fun _ machine => Undoable origin command id manifest [] [] [] machine.disk := by
      apply keeps_rollbackManifest injective accepted straight follows (List.Sublist.refl _)
      intro current isUndone
      exact holds current (.inr ⟨isTarget, accepted, manifest, follows, committing, isUndone⟩)
    have removes := keeps_andThen (removesUndone accepted manifest follows committing isTarget)
      fun _ => returns none
    exact keeps_at (keeps_andThen rollsBack fun _ => removes) undone

include holds in
theorem keeps_recoverOther {directories : List Uuid} {other : Uuid} (different : other ≠ id) :
    Keeps permits invariant
      (fun machine => Recovering contentHash origin command id target directories machine.disk)
      (recoverTransaction contentHash removal other)
      fun _ machine => Recovering contentHash origin command id target directories machine.disk := by
  have removes : Keeps permits invariant
      (fun machine => Recovering contentHash origin command id target directories machine.disk)
      (removeWorkspace other (removal other))
      fun _ machine => Recovering contentHash origin command id target directories machine.disk :=
    keeps_removeOther different holds
  have returns : ∀ result : Option RecoveredBatch, Keeps permits invariant
      (fun machine => Recovering contentHash origin command id target directories machine.disk)
      (Program.done result)
      fun _ machine => Recovering contentHash origin command id target directories machine.disk :=
    fun _ => keeps_done fun _ recovering => recovering
  unfold recoverTransaction
  apply keeps_branch
  intro machine recovering
  have quiet : machine.disk.OthersQuiet id := by
    rcases recovering.1 with isSettled | ⟨_, _, _, _, _, undone⟩
    · exact isSettled.1
    · exact undone.othersQuiet
  cases recorded : (machine.disk.workspace other).bind Workspace.manifest with
  | none => exact keeps_at (keeps_andThen removes fun _ => returns none) recovering
  | some manifest =>
    cases phase : manifest.phase with
    | prepared =>
      simp only [phase]
      exact keeps_at (keeps_andThen removes fun _ => returns none) recovering
    | committing => exact absurd phase (quiet other different manifest recorded)
    | filesystemCommitted =>
      simp only [phase]
      exact keeps_at (returns _) recovering

theorem mem_directories {disk : Disk} (present : disk.workspace id ≠ none) :
    id ∈ disk.directories := by
  unfold Disk.directories
  rw [mem_mergeSort]
  by_contra absent
  apply present
  have missing := Table.get_eq_none_iff.2 absent
  rw [Disk.workspace, missing]
  rfl

include injective straight holds removesUndone in
theorem keeps_recoverPending : Keeps permits invariant
      (fun machine => RecoversTo contentHash origin command id target machine.disk)
      (recoverPending contentHash removal)
      fun _ machine => SettledTo id target machine.disk := by
  unfold recoverPending
  apply keeps_branch
  intro machine recovers
  have starts : Recovering contentHash origin command id target machine.disk.directories
      machine.disk := by
    refine ⟨recovers, ?_⟩
    by_cases present : machine.disk.workspace id = none
    · refine .inr (recovers.resolve_right fun committing => ?_)
      have phase := committing.2.durablePhase
      simp [Disk.durablePhase, present] at phase
    · exact .inl (mem_directories present)
  have loops : Keeps permits invariant
      (fun current => Recovering contentHash origin command id target machine.disk.directories
        current.disk)
      (Program.collect (recoverTransaction contentHash removal) machine.disk.directories)
      fun _ current => Recovering contentHash origin command id target [] current.disk := by
    apply keeps_collect fun rest (current : Machine) =>
      Recovering contentHash origin command id target rest current.disk
    intro other rest
    by_cases isOwn : other = id
    · rw [isOwn]
      apply keeps_mono (keeps_recoverOwn injective straight holds removesUndone)
      · exact fun _ recovering => recovering.1
      · exact fun _ _ isSettled => ⟨.inl isSettled, .inr isSettled⟩
    · apply keeps_mono (keeps_recoverOther holds isOwn)
      · intro current recovering
        refine ⟨recovering.1, recovering.2.imp_left fun member => ?_⟩
        exact (mem_cons.1 member).resolve_left (Ne.symm isOwn)
      · exact fun _ _ recovering => recovering
  apply keeps_mono (keeps_at loops starts) (fun _ same => same)
  exact fun _ _ recovering => recovering.2.resolve_left not_mem_nil

end Recover

end Clepsydra.Mutate
