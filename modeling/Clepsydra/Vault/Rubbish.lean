import Clepsydra.Vault.Canonical
import Clepsydra.Vault.Tree

/-!
Owns: rubbish items: directories with a manifest and a page file, and the checks of their reading.

A manifest with an original path that is no normalized vault path does not parse.
-/

namespace Clepsydra.Vault

/-- `VaultPath::filename`. -/
def VaultPath.filename (path : VaultPath) : String := path.components.getLast path.nonempty

/-- `VaultPath::extension`: what follows the last dot of the file name, unless the dot comes
first or last. -/
def VaultPath.extension (path : VaultPath) : Option String :=
  let characters := path.filename.toList.reverse
  let ending := characters.takeWhile (· ≠ '.')
  match characters.dropWhile (· ≠ '.') with
  | _ :: stem => if stem = [] ∨ ending = [] then none else some (String.ofList ending.reverse)
  | [] => none

structure RubbishManifest where
  version : Nat
  itemId : Uuid
  pageId : Uuid
  originalPath : VaultPath
  title : String
  kind : String
  deletedAt : Int
  archiveUrl : Option String
deriving DecidableEq

def rubbishManifestVersion : Nat := 1

inductive RubbishItemValidationError where
  | malformedManifest
  | unsupportedManifestVersion (version : Nat)
  | manifestItemIdMismatch (directory manifest : Uuid)
  | originalPathNotMarkdown (path : VaultPath)
  | invalidItemLayout
deriving DecidableEq

/-- `RubbishManifest::validate`. -/
def RubbishManifest.validate (manifest : RubbishManifest) :
    Except RubbishItemValidationError Unit :=
  if manifest.version ≠ rubbishManifestVersion then
    .error (.unsupportedManifestVersion manifest.version)
  else if manifest.originalPath.extension ≠ some "md" then
    .error (.originalPathNotMarkdown manifest.originalPath)
  else
    .ok ()

structure RubbishItem where
  manifest : RubbishManifest
  bytes : Bytes
deriving DecidableEq

/-- A file, or a directory with its manifest and page. -/
inductive ItemNode where
  | file (content : Bytes)
  | directory (manifest : Option (Except Bytes RubbishManifest)) (page : Option Bytes)

def RubbishItem.toNode (item : RubbishItem) : ItemNode :=
  .directory (some (.ok item.manifest)) (some item.bytes)

inductive RubbishStoreError where
  | invalidItem (item : Uuid) (source : RubbishItemValidationError)
  | itemAlreadyExists (item : Uuid)
  | itemStateConflict (item : Uuid)
  | filesystem (operation : String) (source : IoError)
deriving DecidableEq

/-- `read_item_directory`, and `read_item` on the directory of the store. -/
def readItemDirectory (node : ItemNode) (expected : Uuid) : Except RubbishStoreError RubbishItem :=
  match node with
  | .file _ => .error (.invalidItem expected .invalidItemLayout)
  | .directory none _ => .error (.filesystem "inspect rubbish item file" .notFound)
  | .directory (some (.error _)) _ => .error (.invalidItem expected .malformedManifest)
  | .directory (some (.ok manifest)) page =>
    match manifest.validate with
    | .error failure => .error (.invalidItem expected failure)
    | .ok () =>
      if manifest.itemId ≠ expected then
        .error (.invalidItem expected (.manifestItemIdMismatch expected manifest.itemId))
      else
        match page with
        | none => .error (.filesystem "inspect rubbish item file" .notFound)
        | some bytes => .ok ⟨manifest, bytes⟩

/-- `read_item_if_exists`. -/
def readItemIfExists (node : Option ItemNode) (item : Uuid) :
    Except RubbishStoreError (Option RubbishItem) :=
  match node with
  | none => .ok none
  | some node => (readItemDirectory node item).map some

theorem eq_toNode_of_readItemDirectory {node : ItemNode} {expected : Uuid} {item : RubbishItem}
    (reads : readItemDirectory node expected = .ok item) :
    node = item.toNode ∧ item.manifest.validate = .ok () ∧ item.manifest.itemId = expected := by
  unfold readItemDirectory at reads
  split at reads
  · cases reads
  · cases reads
  · cases reads
  · rename_i manifest page
    split at reads
    · cases reads
    · rename_i valid
      split_ifs at reads with otherId
      split at reads
      · cases reads
      · rename_i bytes
        have same := Except.ok.inj reads
        rw [← same]
        exact ⟨rfl, valid, not_not.1 otherId⟩

theorem readItemDirectory_toNode {item : RubbishItem} (valid : item.manifest.validate = .ok ()) :
    readItemDirectory item.toNode item.manifest.itemId = .ok item := by
  simp [readItemDirectory, RubbishItem.toNode, valid]

theorem readItemIfExists_some {node : Option ItemNode} {id : Uuid} {item : RubbishItem}
    (reads : readItemIfExists node id = .ok (some item)) :
    node = some item.toNode ∧ item.manifest.validate = .ok () ∧ item.manifest.itemId = id := by
  cases node with
  | none => cases reads
  | some node =>
    cases found : readItemDirectory node id with
    | error failure => simp [readItemIfExists, found, Except.map] at reads
    | ok read =>
      simp only [readItemIfExists, found, Except.map, Except.ok.injEq, Option.some.injEq] at reads
      have parts := eq_toNode_of_readItemDirectory found
      rw [reads] at parts
      exact ⟨congrArg some parts.1, parts.2⟩

theorem readItemIfExists_none {node : Option ItemNode} {id : Uuid}
    (reads : readItemIfExists node id = .ok none) : node = none := by
  cases node with
  | none => rfl
  | some node =>
    cases found : readItemDirectory node id <;>
      simp [readItemIfExists, found, Except.map] at reads

end Clepsydra.Vault
