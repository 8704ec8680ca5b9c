import Clepsydra.Mutate.Accepted

/-!
Owns: the rules for triples of batch programs that keep an invariant, which crashes and failures
leave. One rule for each helper of the transaction code, in terms of the page or item it touches.
-/

namespace Clepsydra.Mutate

open Library Library.Faulty Vault Function

def MayFail (permits : Fault Bool → Prop) : Prop := ∃ applied, permits (.fail applied)

def Keeps {α : Type} (permits : Fault Bool → Prop) (invariant before : Machine → Prop)
    (program : Batch α) (ok : α → Machine → Prop) : Prop :=
  Triple permits (fun _ _ => True) before program ok
    (fun _ machine => invariant machine ∧ MayFail permits)
    (fun machine => invariant machine ∧ permits .crash)

variable {permits : Fault Bool → Prop} {invariant : Machine → Prop} {α β : Type}
  {before : Machine → Prop} {ok : α → Machine → Prop}

theorem keeps_done {value : α} (post : ∀ machine, before machine → ok value machine) :
    Keeps permits invariant before (Program.done value) ok :=
  triple_done post

theorem keeps_fail {failure : BatchMutationError}
    (holds : ∀ machine, before machine → invariant machine)
    (mayFail : ∀ machine, before machine → MayFail permits) :
    Keeps permits invariant before (Program.fail failure) ok :=
  triple_fail fun machine pre => ⟨holds machine pre, mayFail machine pre⟩

theorem keeps_andThen {first : Batch α} {next : α → Batch β} {between : α → Machine → Prop}
    {ok : β → Machine → Prop} (leading : Keeps permits invariant before first between)
    (trailing : ∀ value, Keeps permits invariant (between value) (next value) ok) :
    Keeps permits invariant before (first >>= next) ok :=
  triple_andThen leading trailing

variable {program : Batch α}

theorem keeps_mono {before' : Machine → Prop} {ok' : α → Machine → Prop}
    (keeps : Keeps permits invariant before program ok)
    (pre : ∀ machine, before' machine → before machine)
    (post : ∀ value machine, ok value machine → ok' value machine) :
    Keeps permits invariant before' program ok' :=
  keeps.mono pre post (fun _ _ holds => holds) (fun _ holds => holds)

theorem keeps_weaken {invariant' : Machine → Prop}
    (keeps : Keeps permits invariant before program ok)
    (weaker : ∀ machine, invariant machine → invariant' machine) :
    Keeps permits invariant' before program ok :=
  keeps.mono (fun _ pre => pre) (fun _ _ post => post)
    (fun _ machine both => ⟨weaker machine both.1, both.2⟩)
    (fun machine both => ⟨weaker machine both.1, both.2⟩)

theorem keeps_branch {choose : Machine → Batch α} (each : ∀ machine, before machine →
      Keeps permits invariant (fun current => current = machine) (choose machine) ok) :
    Keeps permits invariant before (Program.branch choose) ok :=
  triple_branch each

theorem keeps_at (keeps : Keeps permits invariant before program ok) {machine : Machine}
    (pre : before machine) :
    Keeps permits invariant (fun current => current = machine) program ok :=
  keeps_mono keeps (fun _ same => same ▸ pre) (fun _ _ post => post)

theorem keeps_branchOn (each : ∀ machine, before machine →
      Keeps permits invariant (fun current => current = machine) program ok) :
    Keeps permits invariant before program ok :=
  fun script permitted machine pre => each machine pre script permitted machine rfl

theorem keeps_known {fact : Prop} (known : ∀ machine, before machine → fact)
    (keeps : fact → Keeps permits invariant before program ok) :
    Keeps permits invariant before program ok :=
  fun script permitted machine pre => keeps (known machine pre) script permitted machine pre

theorem keeps_forEach {body : β → Batch Unit} (loop : List β → Machine → Prop) {items : List β}
    (each : ∀ head tail, (head :: tail) <:+ items →
      Keeps permits invariant (loop (head :: tail)) (body head) fun _ => loop tail) :
    Keeps permits invariant (loop items) (Program.forEach body items) fun _ => loop [] := by
  have whole := @triple_forEach Bool Machine BatchMutationError β permits (fun _ _ => True)
    (fun _ machine => invariant machine ∧ MayFail permits)
    (fun machine => invariant machine ∧ permits .crash) body
    (fun rest machine => rest <:+ items ∧ loop rest machine)
  apply keeps_mono (whole _ items)
  · exact fun machine pre => ⟨List.suffix_rfl, pre⟩
  · exact fun _ _ both => both.2
  · intro head tail
    apply keeps_known fun _ both => both.1
    intro isEnd
    apply keeps_mono (each head tail isEnd)
    · exact fun _ both => both.2
    · exact fun _ _ post => ⟨(List.suffix_cons head tail).trans isEnd, post⟩

theorem keeps_collect {body : β → Batch (Option α)} (loop : List β → Machine → Prop) {items : List β}
    (each : ∀ head tail, Keeps permits invariant (loop (head :: tail)) (body head)
      fun _ => loop tail) :
    Keeps permits invariant (loop items) (Program.collect body items) fun _ => loop [] :=
  triple_collect each items

theorem keeps_attempt {body : Batch α} (inner : Keeps permits invariant before body ok) :
    Keeps permits invariant before (Program.attempt body)
      (handling ok fun _ machine => invariant machine ∧ MayFail permits) :=
  triple_attempt inner

/-- A primitive step keeps the invariant if its effect does, and fails only where it may. -/
theorem keeps_perform {failure : IoError → BatchMutationError} {change : Disk → Except IoError Disk}
    {ok : Unit → Machine → Prop} (holds : ∀ machine, before machine → invariant machine)
    (succeeds : ∀ machine, before machine →
      MayFail permits ∨ ∃ disk, change machine.disk = .ok disk)
    (after : ∀ machine disk, before machine → change machine.disk = .ok disk →
      ok () { machine with disk := disk } ∧ invariant { machine with disk := disk }) :
    Keeps permits invariant before (perform failure change) ok := by
  unfold perform
  apply triple_step
  · intro machine pre
    refine ⟨trivial, ?_, ?_⟩
    · intro value result
      cases changed : change machine.disk with
      | error source => simp [changed] at result
      | ok disk =>
        simp only [changed, Machine.apply]
        exact (after machine disk pre changed).1
    · intro source result
      cases changed : change machine.disk with
      | ok disk => simp [changed] at result
      | error reason =>
        refine ⟨holds machine pre, ?_⟩
        rcases succeeds machine pre with mayFail | ⟨disk, works⟩
        · exact mayFail
        · rw [changed] at works
          cases works
  · intro applied machine permitted pre
    refine ⟨trivial, ?_, ⟨applied, permitted⟩⟩
    cases applied with
    | false => exact holds machine pre
    | true =>
      simp only [Machine.apply, if_true]
      cases changed : change machine.disk with
      | error reason => exact holds machine pre
      | ok disk => exact (after machine disk pre changed).2
  · intro machine permitted pre
    exact ⟨holds machine pre, permitted⟩

theorem keeps_step {attempted : Machine → Except BatchMutationError α × Machine}
    {broken : Bool → Machine → BatchMutationError × Machine} (mayFail : MayFail permits)
    (holds : ∀ machine, before machine → invariant machine)
    (succeeds : ∀ machine value, before machine → (attempted machine).1 = .ok value →
      ok value (attempted machine).2)
    (fails : ∀ machine failure, before machine → (attempted machine).1 = .error failure →
      invariant (attempted machine).2)
    (breaks : ∀ machine applied, before machine → invariant (broken applied machine).2) :
    Keeps permits invariant before (Program.step attempted broken) ok := by
  apply triple_step
  · intro machine pre
    refine ⟨trivial, fun value result => succeeds machine value pre result, ?_⟩
    exact fun failure result => ⟨fails machine failure pre result, mayFail⟩
  · intro applied machine _ pre
    exact ⟨trivial, breaks machine applied pre, mayFail⟩
  · intro machine permitted pre
    exact ⟨holds machine pre, permitted⟩

theorem Keeps.succeeds (keeps : Keeps permits invariant before program ok)
    (noFault : ∀ fault, ¬permits fault) {machine : Machine} (pre : before machine) :
    ∃ value, (program [] machine).outcome = .ok value ∧ ok value (program [] machine).state := by
  have certain : Triple permits (fun _ _ => True) before program ok (fun _ _ => False)
      (fun _ => False) := by
    apply keeps.mono (fun _ holds => holds) (fun _ _ holds => holds)
    · intro _ _ both
      have ⟨applied, permitted⟩ := both.2
      exact noFault _ permitted
    · exact fun _ both => noFault _ both.2
  exact certain.succeeds pre fun fault member => absurd member List.not_mem_nil

theorem Keeps.always (keeps : Keeps permits invariant before program ok)
    (leaves : ∀ value machine, ok value machine → invariant machine) {machine : Machine}
    (pre : before machine) {script : List (Fault Bool)}
    (permitted : ∀ fault ∈ script, permits fault) : invariant (program script machine).state := by
  have weaker : Triple permits (fun _ _ => True) before program ok (fun _ => invariant) invariant :=
    keeps.mono (fun _ holds => holds) (fun _ _ holds => holds) (fun _ _ both => both.1)
      (fun _ both => both.1)
  exact weaker.always leaves pre permitted

/-! ### Pages -/

variable {path : VaultPath}

def Machine.withPages (machine : Machine) (pages : Tree) : Machine :=
  { machine with disk := { machine.disk with pages := pages } }

def StableAt (path : VaultPath) (node : Option Node) (assertion : Machine → Prop) : Prop :=
  ∀ machine pages, assertion machine → pages.nodeAt = update machine.disk.pages.nodeAt path node →
    assertion (machine.withPages pages)

/-- A call on one page, under an assertion that survives its effect. -/
theorem keeps_onPages {known : Machine → Prop} {node : Option Node}
    {failure : IoError → BatchMutationError} {change : Tree → Except IoError Tree}
    (holds : ∀ machine, before machine → invariant machine) (stable : StableAt path node before)
    (succeeds : ∀ machine, before machine → known machine →
      MayFail permits ∨ ∃ pages, change machine.disk.pages = .ok pages)
    (effect : ∀ pages next, change pages = .ok next →
      next.nodeAt = update pages.nodeAt path node) :
    Keeps permits invariant (fun machine => before machine ∧ known machine)
      (perform failure (onPages change)) fun _ machine =>
        before machine ∧ machine.disk.pages.nodeAt path = node := by
  apply keeps_perform
  · exact fun machine pre => holds machine pre.1
  · intro machine pre
    rcases succeeds machine pre.1 pre.2 with mayFail | ⟨pages, works⟩
    · exact .inl mayFail
    · exact .inr ⟨{ machine.disk with pages := pages }, by simp [onPages, works, Except.map]⟩
  · intro machine disk pre changed
    cases works : change machine.disk.pages with
    | error reason => simp [onPages, works, Except.map] at changed
    | ok pages =>
      simp only [onPages, works, Except.map, Except.ok.injEq] at changed
      subst changed
      have lookup := effect _ pages works
      have after := stable machine pages pre.1 lookup
      refine ⟨⟨after, ?_⟩, holds _ after⟩
      show pages.nodeAt path = node
      rw [lookup, update_self]

section Pages

variable {before : Machine → Prop} {path : VaultPath}
  (holds : ∀ machine, before machine → invariant machine)

include holds

theorem keeps_createPage {content : Bytes} (stable : StableAt path (some (.file content)) before)
    (inFolders : ∀ machine, before machine → MayFail permits
      ∨ ∀ ancestor ∈ path.ancestors, machine.disk.pages.nodeAt ancestor = some .folder) :
    Keeps permits invariant (fun machine => before machine ∧ machine.disk.pages.nodeAt path = none)
      (createPage path content)
      fun _ machine => before machine ∧ machine.disk.pages.nodeAt path = some (.file content) := by
  apply keeps_onPages holds stable
  · intro machine pre absent
    rcases inFolders machine pre with mayFail | folders
    · exact .inl mayFail
    · exact .inr (Tree.create_succeeds absent folders)
  · intro pages next works
    exact (Tree.create_ok works).2

theorem keeps_replacePage {content : Bytes} (stable : StableAt path (some (.file content)) before) :
    Keeps permits invariant
      (fun machine => before machine ∧ ∃ old, machine.disk.pages.nodeAt path = some (.file old))
      (replacePage path content)
      fun _ machine => before machine ∧ machine.disk.pages.nodeAt path = some (.file content) := by
  apply keeps_onPages holds stable
  · intro machine _ isFile
    have ⟨old, found⟩ := isFile
    exact .inr (Tree.replace_succeeds found)
  · intro pages next works
    exact (Tree.replace_ok works).2

theorem keeps_removePage (stable : StableAt path none before) : Keeps permits invariant
      (fun machine => before machine ∧ ∃ old, machine.disk.pages.nodeAt path = some (.file old))
      (removePage path)
      fun _ machine => before machine ∧ machine.disk.pages.nodeAt path = none := by
  apply keeps_onPages holds stable
  · intro machine _ isFile
    have ⟨old, found⟩ := isFile
    exact .inr (Tree.removeFile_succeeds found)
  · intro pages next works
    exact (Tree.removeFile_ok works).2

end Pages

/-! ### Observed hashes -/

variable {contentHash : Bytes → Hash} {pages : Tree}

theorem observedHash_none (observed : observedHash contentHash pages path = .ok none) :
    pages.nodeAt path = none ∧ pages.Open path := by
  cases read : readOptional pages path with
  | error failure => simp [observedHash, read, Except.map] at observed
  | ok content =>
    cases content with
    | none => exact absent_of_readOptional read
    | some bytes => simp [observedHash, read, Except.map] at observed

theorem observedHash_some {hash : Hash}
    (observed : observedHash contentHash pages path = .ok (some hash)) :
    ∃ content, pages.nodeAt path = some (.file content) ∧ contentHash content = hash := by
  cases read : readOptional pages path with
  | error failure => simp [observedHash, read, Except.map] at observed
  | ok content =>
    cases content with
    | none => simp [observedHash, read, Except.map] at observed
    | some bytes =>
      simp only [observedHash, read, Except.map, Option.map_some, Except.ok.injEq,
        Option.some.injEq] at observed
      exact ⟨bytes, nodeAt_of_readOptional read, observed⟩

def Settled (contentHash : Bytes → Hash) (pages : Tree) (path : VaultPath) (hash : Hash) : Prop :=
  (pages.nodeAt path = none ∧ pages.Open path)
    ∨ ∃ content, pages.nodeAt path = some (.file content) ∧ contentHash content = hash

theorem observedHash_of_file {content : Bytes} (isFile : pages.nodeAt path = some (.file content)) :
    observedHash contentHash pages path = .ok (some (contentHash content)) := by
  have read := Tree.readFile_ok_iff.2 isFile
  simp [observedHash, readOptional, read, Except.map]

theorem observedHash_of_absent (absent : pages.nodeAt path = none) (isOpen : pages.Open path) :
    observedHash contentHash pages path = .ok none := by
  have read := Tree.readFile_of_open isOpen absent
  simp [observedHash, readOptional, read, Except.map]

section Observed

variable {before : Machine → Prop} {path : VaultPath}
  (holds : ∀ machine, before machine → invariant machine)

include holds

theorem keeps_refuse {failure : BatchMutationError} {ok : α → Machine → Prop} {machine : Machine}
    (pre : before machine) (mayFail : MayFail permits) :
    Keeps permits invariant (fun current => current = machine) (Program.fail failure) ok := by
  apply keeps_fail
  · intro current same
    rw [same]
    exact holds machine pre
  · exact fun _ _ => mayFail

theorem keeps_withObserved {next : Option Hash → Batch Unit} {ok : Unit → Machine → Prop}
    (readable : ∀ machine failure, before machine →
      observedHash contentHash machine.disk.pages path = .error failure → MayFail permits)
    (each : ∀ machine observed, before machine →
      observedHash contentHash machine.disk.pages path = .ok observed →
      Keeps permits invariant (fun current => current = machine) (next observed) ok) :
    Keeps permits invariant before (withObserved contentHash path next) ok := by
  unfold withObserved
  apply keeps_branch
  intro machine pre
  cases observed : observedHash contentHash machine.disk.pages path with
  | error failure => exact keeps_refuse holds pre (readable machine failure pre observed)
  | ok hash => exact each machine hash pre observed

theorem keeps_expectMissingOr {hash : Hash} {missing present : Batch Unit}
    {ok : Unit → Machine → Prop}
    (settled : ∀ machine, before machine → MayFail permits
      ∨ Settled contentHash machine.disk.pages path hash)
    (whenMissing : Keeps permits invariant
      (fun machine => before machine ∧ machine.disk.pages.nodeAt path = none) missing ok)
    (whenPresent : Keeps permits invariant
      (fun machine => before machine ∧ ∃ content, machine.disk.pages.nodeAt path = some (.file content)
        ∧ contentHash content = hash) present ok) :
    Keeps permits invariant before (expectMissingOr contentHash path hash missing present) ok := by
  apply keeps_withObserved holds
  · intro machine failure pre observed
    rcases settled machine pre with mayFail | ⟨absent, isOpen⟩ | ⟨content, isFile, _⟩
    · exact mayFail
    · rw [observedHash_of_absent absent isOpen] at observed
      cases observed
    · rw [observedHash_of_file isFile] at observed
      cases observed
  · intro machine observed pre seen
    cases observed with
    | none => exact keeps_at whenMissing ⟨pre, (observedHash_none seen).1⟩
    | some found =>
      have ⟨content, isFile, hasHash⟩ := observedHash_some seen
      simp only
      split_ifs with same
      · exact keeps_at whenPresent ⟨pre, content, isFile, hasHash.trans same⟩
      · apply keeps_refuse holds pre
        rcases settled machine pre with mayFail | ⟨absent, _⟩ | ⟨other, isOther, otherHash⟩
        · exact mayFail
        · rw [absent] at isFile
          cases isFile
        · rw [isFile] at isOther
          cases isOther
          exact absurd (hasHash.symm.trans otherHash) same

theorem keeps_preflight {hash : Hash} (settled : ∀ machine, before machine → MayFail permits
      ∨ Settled contentHash machine.disk.pages path hash) :
    Keeps permits invariant before
      (expectMissingOr contentHash path hash (Program.done ()) (Program.done ()))
      fun _ => before := by
  apply keeps_expectMissingOr holds settled
  · exact keeps_done fun _ pre => pre.1
  · exact keeps_done fun _ pre => pre.1

theorem keeps_removeIfHash {hash : Hash} (stable : StableAt path none before)
    (settled : ∀ machine, before machine → MayFail permits
      ∨ Settled contentHash machine.disk.pages path hash) :
    Keeps permits invariant before (removeIfHash contentHash path hash)
      fun _ machine => before machine ∧ machine.disk.pages.nodeAt path = none := by
  apply keeps_expectMissingOr holds settled
  · exact keeps_done fun _ pre => pre
  · apply keeps_mono (keeps_removePage holds stable)
    · intro machine pre
      have ⟨known, content, isFile, _⟩ := pre
      exact ⟨known, content, isFile⟩
    · exact fun _ _ post => post

theorem keeps_restoreMissingFile (injective : Injective contentHash) {content : Bytes}
    (stable : StableAt path (some (.file content)) before)
    (settled : ∀ machine, before machine → MayFail permits
      ∨ Settled contentHash machine.disk.pages path (contentHash content))
    (inFolders : ∀ machine, before machine → MayFail permits
      ∨ ∀ ancestor ∈ path.ancestors, machine.disk.pages.nodeAt ancestor = some .folder) :
    Keeps permits invariant before
      (restoreMissingFile contentHash path (contentHash content) content)
      fun _ machine => before machine ∧ machine.disk.pages.nodeAt path = some (.file content) := by
  apply keeps_expectMissingOr holds settled
  · exact keeps_createPage holds stable inFolders
  · apply keeps_done
    intro machine pre
    have ⟨known, found, isFile, sameHash⟩ := pre
    rw [injective sameHash] at isFile
    exact ⟨known, isFile⟩

theorem keeps_restoreFileState (injective : Injective contentHash)
    {content : Bytes} {afterHash : Hash} (stable : StableAt path (some (.file content)) before)
    (settled : ∀ machine, before machine → MayFail permits
      ∨ ∃ found, machine.disk.pages.nodeAt path = some (.file found)
        ∧ (contentHash found = contentHash content ∨ contentHash found = afterHash)) :
    Keeps permits invariant before
      (restoreFileState contentHash path (contentHash content) afterHash content)
      fun _ machine => before machine ∧ machine.disk.pages.nodeAt path = some (.file content) := by
  apply keeps_withObserved holds
  · intro machine failure pre observed
    rcases settled machine pre with mayFail | ⟨found, isFile, _⟩
    · exact mayFail
    · rw [observedHash_of_file isFile] at observed
      cases observed
  · intro machine observed pre seen
    split_ifs with isBefore isAfter
    · apply keeps_done
      intro current same
      rw [isBefore] at seen
      have ⟨found, isFile, sameHash⟩ := observedHash_some seen
      rw [injective sameHash] at isFile
      rw [same]
      exact ⟨pre, isFile⟩
    · rw [isAfter] at seen
      have ⟨found, isFile, _⟩ := observedHash_some seen
      exact keeps_at (keeps_replacePage holds stable) ⟨pre, found, isFile⟩
    · apply keeps_refuse holds pre
      rcases settled machine pre with mayFail | ⟨found, isFile, isOne⟩
      · exact mayFail
      · rw [observedHash_of_file isFile] at seen
        have same : some (contentHash found) = observed := Except.ok.inj seen
        rw [← same] at isBefore isAfter
        rcases isOne with sameBefore | sameAfter
        · exact absurd (congrArg some sameBefore) isBefore
        · exact absurd (congrArg some sameAfter) isAfter

/-- `publish_file_state` ends with the page holding the new content. -/
theorem keeps_publishFileState (injective : Injective contentHash)
    (mayFail : MayFail permits) {content : Bytes} {beforeHash : Option Hash}
    (stable : StableAt path (some (.file content)) before) :
    Keeps permits invariant before
      (publishFileState contentHash path beforeHash (contentHash content) content)
      fun _ machine => before machine ∧ machine.disk.pages.nodeAt path = some (.file content) := by
  apply keeps_withObserved holds
  · exact fun _ _ _ _ => mayFail
  · intro machine observed pre seen
    split_ifs with isAfter isOther
    · apply keeps_done
      intro current same
      rw [isAfter] at seen
      have ⟨found, isFile, sameHash⟩ := observedHash_some seen
      rw [injective sameHash] at isFile
      rw [same]
      exact ⟨pre, isFile⟩
    · exact keeps_refuse holds pre mayFail
    · rw [not_not.1 isOther] at seen
      cases beforeHash with
      | none =>
        exact keeps_at (keeps_createPage holds stable fun _ _ => .inl mayFail)
          ⟨pre, (observedHash_none seen).1⟩
      | some hash =>
        have ⟨found, isFile, _⟩ := observedHash_some seen
        exact keeps_at (keeps_replacePage holds stable) ⟨pre, found, isFile⟩

end Observed

/-! ### Entries of the transaction directory -/

variable {disk : Disk} {id item : Uuid} {slot : Slot}

theorem installItem_ok {next : Disk} (moved : installItem id slot item disk = .ok next) :
    ∃ node, disk.entry id slot = some node ∧ disk.rubbish item = none ∧ next.pages = disk.pages
      ∧ next.rubbish = update disk.rubbish item (some node)
      ∧ (∀ other, next.workspace other = if other = id then (disk.workspace id).map fun workspace =>
              { workspace with entries := update workspace.entries slot none }
            else disk.workspace other) := by
  unfold installItem at moved
  split at moved
  · cases moved
  · cases moved
  · rename_i node found absent
    cases moved
    exact ⟨node, found, absent, rfl, rfl, Disk.workspace_update _ _ _⟩

theorem withdrawItem_ok {next : Disk} (moved : withdrawItem id slot item disk = .ok next) :
    ∃ node, disk.rubbish item = some node ∧ disk.entry id slot = none ∧ next.pages = disk.pages
      ∧ next.rubbish = update disk.rubbish item none
      ∧ (∀ other, next.workspace other = if other = id then (disk.workspace id).map fun workspace =>
              { workspace with entries := update workspace.entries slot (some node) }
            else disk.workspace other) := by
  unfold withdrawItem at moved
  split at moved
  · cases moved
  · cases moved
  · rename_i node found absent
    cases moved
    exact ⟨node, found, absent, rfl, rfl, Disk.workspace_update _ _ _⟩

theorem installItem_succeeds {node : ItemNode} (inSlot : disk.entry id slot = some node)
    (outOfStore : disk.rubbish item = none) :
    ∃ next, installItem id slot item disk = .ok next := by
  unfold installItem
  rw [inSlot, outOfStore]
  exact ⟨_, rfl⟩

theorem withdrawItem_succeeds {node : ItemNode} (inStore : disk.rubbish item = some node)
    (outOfSlot : disk.entry id slot = none) :
    ∃ next, withdrawItem id slot item disk = .ok next := by
  unfold withdrawItem
  rw [inStore, outOfSlot]
  exact ⟨_, rfl⟩

def ItemSettled (disk : Disk) (id : Uuid) (slot : Slot) (expected : RubbishItem) : Prop :=
  expected.manifest.validate = .ok () ∧ ((disk.rubbish expected.manifest.itemId = none
        ∧ disk.entry id slot = some expected.toNode)
      ∨ (disk.rubbish expected.manifest.itemId = some expected.toNode ∧ disk.entry id slot = none))

theorem ItemSettled.reads {expected : RubbishItem} (settled : ItemSettled disk id slot expected) :
    (readItemIfExists (disk.rubbish expected.manifest.itemId) expected.manifest.itemId = .ok none
        ∧ readItemIfExists (disk.entry id slot) expected.manifest.itemId = .ok (some expected))
      ∨ (readItemIfExists (disk.rubbish expected.manifest.itemId) expected.manifest.itemId
          = .ok (some expected)
        ∧ readItemIfExists (disk.entry id slot) expected.manifest.itemId = .ok none) := by
  obtain ⟨valid, ⟨absent, present⟩ | ⟨present, absent⟩⟩ := settled
  · refine .inl ⟨by rw [absent]; rfl, ?_⟩
    simp [present, readItemIfExists, readItemDirectory_toNode valid, Except.map]
  · refine .inr ⟨?_, by rw [absent]; rfl⟩
    simp [present, readItemIfExists, readItemDirectory_toNode valid, Except.map]

theorem eq_of_readVerified (injective : Injective contentHash) {content found : Bytes}
    (read : readVerified contentHash disk id slot (contentHash content) = .ok found) :
    found = content := by
  unfold readVerified at read
  split at read
  · cases read
  · cases read
  · split_ifs at read with hashes
    rw [← Except.ok.inj read]
    exact injective hashes

section Items

variable {before : Machine → Prop} {id : Uuid} {slot : Slot}
  (holds : ∀ machine, before machine → invariant machine)

include holds

omit holds in
theorem keeps_withVerified {expected : Hash} {content : Bytes} {next : Bytes → Batch Unit}
    {ok : Unit → Machine → Prop} (hashes : contentHash content = expected)
    (stored : ∀ machine, before machine → machine.disk.entry id slot = some (.file content))
    (continues : Keeps permits invariant before (next content) ok) :
    Keeps permits invariant before (withVerified contentHash id slot expected next) ok := by
  unfold withVerified
  apply keeps_branch
  intro machine pre
  have read : readVerified contentHash machine.disk id slot expected = .ok content := by
    simp [readVerified, stored machine pre, hashes]
  simp only [read]
  exact keeps_at continues pre

theorem keeps_withRead (injective : Injective contentHash) (mayFail : MayFail permits)
    {content : Bytes} {next : Bytes → Batch Unit} {ok : Unit → Machine → Prop}
    (continues : Keeps permits invariant before (next content) ok) :
    Keeps permits invariant before (withVerified contentHash id slot (contentHash content) next)
      ok := by
  unfold withVerified
  apply keeps_branch
  intro machine pre
  cases read : readVerified contentHash machine.disk id slot (contentHash content) with
  | error failure => exact keeps_refuse holds pre mayFail
  | ok found =>
    simp only [eq_of_readVerified injective read]
    exact keeps_at continues pre

theorem keeps_publishTransactionItem {operation : String} {expected : RubbishItem}
    (stable : ∀ machine disk, before machine →
      installItem id slot expected.manifest.itemId machine.disk = .ok disk →
      before { machine with disk := disk })
    (settled : ∀ machine, before machine → MayFail permits
      ∨ ItemSettled machine.disk id slot expected) :
    Keeps permits invariant before (publishTransactionItem operation id expected slot)
      fun _ machine => before machine
        ∧ machine.disk.rubbish expected.manifest.itemId = some expected.toNode := by
  unfold publishTransactionItem
  apply keeps_branch
  intro machine pre
  have refuse : ∀ failure, ¬ItemSettled machine.disk id slot expected →
      Keeps permits invariant (fun current => current = machine)
        (Program.fail failure : Batch Unit) fun _ machine => before machine
          ∧ machine.disk.rubbish expected.manifest.itemId = some expected.toNode := by
    intro failure unsettled
    exact keeps_refuse holds pre ((settled machine pre).resolve_right unsettled)
  cases inStore : machine.disk.rubbish expected.manifest.itemId with
  | some node =>
    cases inSlot : machine.disk.entry id slot with
    | some other => exact refuse _ (by simp [ItemSettled, inStore, inSlot])
    | none =>
      -- Already in the store; it must be the expected item.
      have expectedRead : ItemSettled machine.disk id slot expected →
          readItemDirectory node expected.manifest.itemId = .ok expected := by
        intro known
        obtain ⟨valid, ⟨absent, _⟩ | ⟨present, _⟩⟩ := known
        · rw [inStore] at absent
          cases absent
        · rw [inStore] at present
          rw [Option.some.inj present]
          exact readItemDirectory_toNode valid
      simp only
      cases read : readItemDirectory node expected.manifest.itemId with
      | error source =>
        exact refuse _ fun known => by simpa [read] using expectedRead known
      | ok found =>
        simp only
        split_ifs with same
        · apply keeps_done
          intro current isMachine
          rw [isMachine, inStore, (eq_toNode_of_readItemDirectory read).1, same]
          exact ⟨pre, rfl⟩
        · exact refuse _ fun known => same (by simpa [read] using expectedRead known)
  | none =>
    cases inSlot : machine.disk.entry id slot with
    | none => exact refuse _ (by simp [ItemSettled, inStore, inSlot])
    | some node =>
      have expectedRead : ItemSettled machine.disk id slot expected →
          readItemDirectory node expected.manifest.itemId = .ok expected := by
        intro known
        obtain ⟨valid, ⟨_, present⟩ | ⟨present, _⟩⟩ := known
        · rw [inSlot] at present
          rw [Option.some.inj present]
          exact readItemDirectory_toNode valid
        · rw [inStore] at present
          cases present
      simp only
      cases read : readItemDirectory node expected.manifest.itemId with
      | error source =>
        exact refuse _ fun known => by simpa [read] using expectedRead known
      | ok found =>
        simp only
        split_ifs with same
        · apply keeps_perform
          · intro current isMachine
            rw [isMachine]
            exact holds machine pre
          · intro current isMachine
            rw [isMachine]
            exact .inr (installItem_succeeds inSlot inStore)
          · intro current disk isMachine moved
            rw [isMachine] at moved ⊢
            have after := stable machine disk pre moved
            have ⟨moving, fromSlot, _, _, rubbish, _⟩ := installItem_ok moved
            rw [inSlot] at fromSlot
            refine ⟨⟨after, ?_⟩, holds _ after⟩
            show disk.rubbish expected.manifest.itemId = some expected.toNode
            rw [rubbish, update_self, ← fromSlot, (eq_toNode_of_readItemDirectory read).1, same]
        · exact refuse _ fun known => same (by simpa [read] using expectedRead known)

theorem keeps_withdrawTransactionItem {operation : String} {expected : RubbishItem}
    (stable : ∀ machine disk, before machine →
      withdrawItem id slot expected.manifest.itemId machine.disk = .ok disk →
      before { machine with disk := disk })
    (settled : ∀ machine, before machine → MayFail permits
      ∨ ItemSettled machine.disk id slot expected) :
    Keeps permits invariant before (withdrawTransactionItem operation id expected slot)
      fun _ machine => before machine ∧ machine.disk.rubbish expected.manifest.itemId = none := by
  unfold withdrawTransactionItem
  apply keeps_branch
  intro machine pre
  have refuse : ∀ failure, ¬ItemSettled machine.disk id slot expected →
      Keeps permits invariant (fun current => current = machine)
        (Program.fail failure : Batch Unit) fun _ machine => before machine
          ∧ machine.disk.rubbish expected.manifest.itemId = none := by
    intro failure unsettled
    exact keeps_refuse holds pre ((settled machine pre).resolve_right unsettled)
  cases final : readItemIfExists (machine.disk.rubbish expected.manifest.itemId)
      expected.manifest.itemId with
  | error source => exact refuse _ fun known => by simpa [final] using known.reads
  | ok finalItem =>
    simp only
    cases transaction : readItemIfExists (machine.disk.entry id slot)
        expected.manifest.itemId with
    | error source => exact refuse _ fun known => by simpa [transaction] using known.reads
    | ok transactionItem =>
      have unsettled : ¬((finalItem = none ∧ transactionItem = some expected)
            ∨ (finalItem = some expected ∧ transactionItem = none)) →
          ¬ItemSettled machine.disk id slot expected := by
        intro neither known
        exact neither (by simpa [final, transaction] using known.reads)
      cases finalItem with
      | none =>
        cases transactionItem with
        | none => exact refuse _ (unsettled (by simp))
        | some found =>
          simp only
          split_ifs with same
          · apply keeps_done
            intro current isMachine
            rw [isMachine]
            exact ⟨pre, readItemIfExists_none final⟩
          · exact refuse _ (unsettled (by simpa using same))
      | some found =>
        cases transactionItem with
        | some other => exact refuse _ (unsettled (by simp))
        | none =>
          simp only
          split_ifs with same
          · apply keeps_perform
            · intro current isMachine
              rw [isMachine]
              exact holds machine pre
            · intro current isMachine
              rw [isMachine]
              exact .inr (withdrawItem_succeeds (readItemIfExists_some final).1
                (readItemIfExists_none transaction))
            · intro current disk isMachine moved
              rw [isMachine] at moved ⊢
              have after := stable machine disk pre moved
              have ⟨moving, _, _, _, rubbish, _⟩ := withdrawItem_ok moved
              refine ⟨⟨after, ?_⟩, holds _ after⟩
              show disk.rubbish expected.manifest.itemId = none
              rw [rubbish, update_self]
          · exact refuse _ (unsettled (by simpa using same))

end Items

end Clepsydra.Mutate
