import Clepsydra.Library.Table
import Clepsydra.Vault.Path

/-!
Owns: the files and folders of a vault, and the file system calls on them. A tree
is a finite set of entries in which every entry lies in folders that are entries
too, so a file has nothing below it.
-/

namespace Clepsydra.Vault

open Library List Function Option

abbrev Bytes := List UInt8

inductive Node where
  | file (content : Bytes)
  | folder
deriving DecidableEq

/-- The kinds of failure of a file system call. -/
inductive IoError where
  | notFound
  | notDirectory
  | isDirectory
  | alreadyExists
  | directoryNotEmpty
  | device
deriving DecidableEq

structure TreeEntry where
  path : VaultPath
  node : Node
deriving DecidableEq

def TreeEntry.write (entry : TreeEntry) (content : Bytes) : TreeEntry :=
  { entry with node := .file content }

theorem TreeEntry.path_write (content : Bytes) (entry : TreeEntry) :
    (entry.write content).path = entry.path := rfl

structure Tree where
  entries : Table VaultPath TreeEntry TreeEntry.path
  closed : ∀ entry ∈ entries.rows, ∀ ancestor ∈ entry.path.ancestors,
    entries.get ancestor = some ⟨ancestor, .folder⟩

namespace Tree

def empty : Tree := ⟨Table.empty, by simp [Table.empty]⟩

def nodeAt (tree : Tree) (path : VaultPath) : Option Node :=
  (tree.entries.get path).map TreeEntry.node

variable {tree : Tree} {path : VaultPath} {node : Node}

theorem get_eq_some (found : tree.nodeAt path = some node) :
    tree.entries.get path = some ⟨path, node⟩ := by
  have ⟨entry, present, isNode⟩ := map_eq_some_iff.1 found
  have isPath := Table.key_of_get present
  rw [present, ← isPath, ← isNode]

theorem nodeAt_ancestor {ancestor : VaultPath} (found : tree.nodeAt path = some node)
    (above : ancestor ∈ path.ancestors) :
    tree.nodeAt ancestor = some .folder := by
  have present := get_eq_some found
  unfold nodeAt
  rw [tree.closed _ (Table.mem_of_get present) ancestor above]
  rfl

theorem nodeAt_below {below : VaultPath} (notFolder : tree.nodeAt path ≠ some .folder)
    (above : path ∈ below.ancestors) : tree.nodeAt below = none := by
  by_contra present
  have ⟨node, found⟩ := ne_none_iff_exists'.1 present
  exact notFolder (nodeAt_ancestor found above)

/-! ### Changing one entry -/

variable {content : Bytes}

def insert (tree : Tree) (path : VaultPath) (node : Node)
    (inFolders : ∀ ancestor ∈ path.ancestors, tree.nodeAt ancestor = some .folder) : Tree where
  entries := tree.entries.insertOrIgnore ⟨path, node⟩
  closed := by
    intro entry member ancestor above
    have folder : tree.entries.get ancestor = some ⟨ancestor, .folder⟩ := by
      have place := Table.get_of_mem member
      rw [Table.get_insertOrIgnore] at place
      split_ifs at place with isNew
      · have same : (⟨path, node⟩ : TreeEntry) = entry := some.inj place
        rw [← same] at above
        exact get_eq_some (inFolders ancestor above)
      · exact tree.closed entry (Table.mem_of_get place) ancestor above
    rw [Table.get_insertOrIgnore, folder]
    simp

theorem nodeAt_insert {inFolders : ∀ ancestor ∈ path.ancestors, tree.nodeAt ancestor = some .folder}
    (absent : tree.nodeAt path = none) :
    (tree.insert path node inFolders).nodeAt = update tree.nodeAt path (some node) := by
  funext other
  have missing : tree.entries.get path = none := map_eq_none_iff.1 absent
  unfold nodeAt insert
  rw [Table.get_insertOrIgnore]
  by_cases isPath : other = path
  · rw [isPath, update_self, if_pos ⟨rfl, missing⟩]
    rfl
  · rw [update_of_ne isPath, if_neg]
    intro both
    exact isPath both.1.symm

def overwrite (tree : Tree) (path : VaultPath) (content old : Bytes)
    (isFile : tree.nodeAt path = some (.file old)) : Tree where
  entries := tree.entries.modify path (fun entry => entry.write content)
    (TreeEntry.path_write content)
  closed := by
    intro entry member ancestor above
    have place := Table.get_of_mem member
    rw [Table.get_modify] at place
    have folder : tree.entries.get ancestor = some ⟨ancestor, .folder⟩ := by
      split_ifs at place with isPath
      · have ⟨original, found, same⟩ := map_eq_some_iff.1 place
        have samePath : original.path = entry.path := by rw [← same]; rfl
        exact tree.closed original (Table.mem_of_get found) ancestor (samePath ▸ above)
      · exact tree.closed entry (Table.mem_of_get place) ancestor above
    rw [Table.get_modify, folder, if_neg]
    intro isPath
    rw [isPath] at folder
    rw [nodeAt, folder] at isFile
    cases isFile

theorem nodeAt_overwrite {old : Bytes} {isFile : tree.nodeAt path = some (.file old)} :
    (tree.overwrite path content old isFile).nodeAt
      = update tree.nodeAt path (some (.file content)) := by
  funext other
  unfold nodeAt overwrite
  rw [Table.get_modify]
  by_cases isPath : other = path
  · rw [isPath, update_self, if_pos rfl, get_eq_some isFile]
    rfl
  · rw [update_of_ne isPath, if_neg isPath]

def erase (tree : Tree) (path : VaultPath)
    (childless : ∀ entry ∈ tree.entries.rows, path ∉ entry.path.ancestors) : Tree where
  entries := tree.entries.erase path
  closed := by
    intro entry member ancestor above
    have place := Table.get_of_mem member
    rw [Table.get_erase] at place
    split_ifs at place with isPath
    have present := Table.mem_of_get place
    rw [Table.get_erase, if_neg, tree.closed entry present ancestor above]
    intro isErased
    exact childless entry present (isErased ▸ above)

theorem nodeAt_erase {childless : ∀ entry ∈ tree.entries.rows, path ∉ entry.path.ancestors} :
    (tree.erase path childless).nodeAt = update tree.nodeAt path none := by
  funext other
  unfold nodeAt erase
  rw [Table.get_erase]
  by_cases isPath : other = path
  · rw [isPath, update_self, if_pos rfl]
    rfl
  · rw [update_of_ne isPath, if_neg isPath]

theorem childless_of_file (isFile : tree.nodeAt path = some (.file content)) :
    ∀ entry ∈ tree.entries.rows, path ∉ entry.path.ancestors := by
  intro entry member above
  have folder := tree.closed entry member path above
  rw [nodeAt, folder] at isFile
  cases isFile

/-! ### File system calls -/

def walk (tree : Tree) : List VaultPath → Except IoError Unit
  | [] => .ok ()
  | ancestor :: rest =>
    match tree.nodeAt ancestor with
    | some .folder => tree.walk rest
    | some (.file _) => .error .notDirectory
    | none => .error .notFound

theorem walk_ok_iff {ancestors : List VaultPath} :
    tree.walk ancestors = .ok () ↔ ∀ ancestor ∈ ancestors, tree.nodeAt ancestor = some .folder := by
  induction ancestors with
  | nil => simp [walk]
  | cons first rest ih =>
    rw [walk, forall_mem_cons]
    cases found : tree.nodeAt first with
    | none => simp
    | some node =>
      cases node with
      | file content => simp
      | folder => simpa using ih

/-- `fs::metadata`. -/
def look (tree : Tree) (path : VaultPath) : Except IoError Node :=
  match tree.walk path.ancestors with
  | .error failure => .error failure
  | .ok () =>
    match tree.nodeAt path with
    | some node => .ok node
    | none => .error .notFound

theorem look_of_nodeAt (found : tree.nodeAt path = some node) : tree.look path = .ok node := by
  have inFolders : tree.walk path.ancestors = .ok () :=
    walk_ok_iff.2 fun _ above => nodeAt_ancestor found above
  simp only [look, inFolders, found]

theorem look_of_absent (absent : tree.nodeAt path = none) :
    ∃ failure, tree.look path = .error failure := by
  unfold look
  cases tree.walk path.ancestors with
  | error failure => exact ⟨failure, rfl⟩
  | ok _ => exact ⟨.notFound, by rw [absent]⟩

/-! ### Why a path is absent -/

variable {next : Tree}

def Open (tree : Tree) (path : VaultPath) : Prop :=
  ∀ ancestor ∈ path.ancestors, ∀ content, tree.nodeAt ancestor ≠ some (.file content)

private theorem walk_of_file {ancestors : List VaultPath} {blocking : VaultPath}
    (nested : ancestors.Pairwise fun upper lower => upper ∈ lower.ancestors)
    (member : blocking ∈ ancestors) (isFile : tree.nodeAt blocking = some (.file content)) :
    tree.walk ancestors = .error .notDirectory := by
  induction ancestors with
  | nil => exact absurd member not_mem_nil
  | cons first rest ih =>
    have ⟨aboveRest, nestedRest⟩ := pairwise_cons.1 nested
    rcases mem_cons.1 member with isFirst | inRest
    · rw [walk, ← isFirst, isFile]
    · rw [walk, nodeAt_ancestor isFile (aboveRest blocking inRest)]
      exact ih nestedRest inRest

private theorem walk_of_open {ancestors : List VaultPath}
    (noFile : ∀ ancestor ∈ ancestors, ∀ content, tree.nodeAt ancestor ≠ some (.file content)) :
    tree.walk ancestors = .ok () ∨ tree.walk ancestors = .error .notFound := by
  induction ancestors with
  | nil => exact .inl rfl
  | cons first rest ih =>
    have ⟨notFile, restNoFile⟩ := forall_mem_cons.1 noFile
    rw [walk]
    cases found : tree.nodeAt first with
    | none => exact .inr rfl
    | some node =>
      cases node with
      | file content => exact absurd found (notFile content)
      | folder => exact ih restNoFile

theorem open_of_look (failed : tree.look path = .error .notFound) : tree.Open path := by
  intro ancestor above content isFile
  have blocked := walk_of_file path.pairwise_ancestors above isFile
  rw [look, blocked] at failed
  cases failed

theorem look_of_open (isOpen : tree.Open path) (absent : tree.nodeAt path = none) :
    tree.look path = .error .notFound := by
  unfold look
  rcases walk_of_open isOpen with passes | stops
  · simp only [passes, absent]
  · simp only [stops]

/-- `Path::exists`. -/
def isPresent (tree : Tree) (path : VaultPath) : Bool :=
  match tree.look path with
  | .ok _ => true
  | .error _ => false

theorem isPresent_eq : tree.isPresent path = (tree.nodeAt path).isSome := by
  unfold isPresent
  cases found : tree.nodeAt path with
  | none =>
    have ⟨failure, failed⟩ := look_of_absent found
    rw [failed]
    rfl
  | some node =>
    rw [look_of_nodeAt found]
    rfl

/-- `Path::try_exists`. -/
def tryExists (tree : Tree) (path : VaultPath) : Except IoError Bool :=
  match tree.look path with
  | .ok _ => .ok true
  | .error .notFound => .ok false
  | .error failure => .error failure

theorem absent_of_tryExists (found : tree.tryExists path = .ok false) :
    tree.nodeAt path = none := by
  by_contra present
  have ⟨node, isNode⟩ := ne_none_iff_exists'.1 present
  rw [tryExists, look_of_nodeAt isNode] at found
  cases found

theorem open_of_tryExists (found : tree.tryExists path = .ok false) : tree.Open path := by
  apply open_of_look
  unfold tryExists at found
  split at found
  · cases found
  · assumption
  · cases found

/-- `Path::is_dir`. -/
def isDir (tree : Tree) (path : VaultPath) : Bool :=
  match tree.look path with
  | .ok .folder => true
  | _ => false

theorem isDir_iff : tree.isDir path = true ↔ tree.nodeAt path = some .folder := by
  unfold isDir
  cases found : tree.nodeAt path with
  | none =>
    have ⟨failure, failed⟩ := look_of_absent found
    rw [failed]
    simp
  | some node =>
    rw [look_of_nodeAt found]
    cases node <;> simp

/-- `fs::read`. -/
def readFile (tree : Tree) (path : VaultPath) : Except IoError Bytes :=
  match tree.look path with
  | .ok (.file content) => .ok content
  | .ok .folder => .error .isDirectory
  | .error failure => .error failure

theorem readFile_ok_iff :
    tree.readFile path = .ok content ↔ tree.nodeAt path = some (.file content) := by
  unfold readFile
  cases found : tree.nodeAt path with
  | none =>
    have ⟨failure, failed⟩ := look_of_absent found
    rw [failed]
    simp
  | some node =>
    rw [look_of_nodeAt found]
    cases node <;> simp

theorem absent_of_readFile (failed : tree.readFile path = .error .notFound) :
    tree.nodeAt path = none := by
  by_contra present
  have ⟨node, isNode⟩ := ne_none_iff_exists'.1 present
  rw [readFile, look_of_nodeAt isNode] at failed
  cases node <;> cases failed

theorem open_of_readFile (failed : tree.readFile path = .error .notFound) : tree.Open path := by
  apply open_of_look
  unfold readFile at failed
  split at failed
  · cases failed
  · cases failed
  · rename_i failure looked
    rw [looked, Except.error.inj failed]

theorem readFile_of_open (isOpen : tree.Open path) (absent : tree.nodeAt path = none) :
    tree.readFile path = .error .notFound := by
  rw [readFile, look_of_open isOpen absent]

/-- Creates an entry where nothing is, as `fs::create_dir` and `install_noreplace` do. -/
def create (tree : Tree) (path : VaultPath) (node : Node) : Except IoError Tree :=
  match inFolders : tree.walk path.ancestors with
  | .error failure => .error failure
  | .ok () =>
    match tree.nodeAt path with
    | some _ => .error .alreadyExists
    | none => .ok (tree.insert path node (walk_ok_iff.1 inFolders))

theorem create_ok (created : tree.create path node = .ok next) :
    tree.nodeAt path = none ∧ next.nodeAt = update tree.nodeAt path (some node) := by
  unfold create at created
  split at created
  · cases created
  · split at created
    · cases created
    · rename_i absent
      have same := Except.ok.inj created
      rw [← same]
      exact ⟨absent, nodeAt_insert absent⟩

theorem create_succeeds (absent : tree.nodeAt path = none)
    (inFolders : ∀ ancestor ∈ path.ancestors, tree.nodeAt ancestor = some .folder) :
    ∃ next, tree.create path node = .ok next := by
  unfold create
  have walks := walk_ok_iff.2 inFolders
  split
  · rename_i failure failed
    rw [walks] at failed
    cases failed
  · rw [absent]
    exact ⟨_, rfl⟩

/-- `atomic_replace`. -/
def replace (tree : Tree) (path : VaultPath) (content : Bytes) : Except IoError Tree :=
  match tree.look path with
  | .error failure => .error failure
  | .ok _ =>
    match isFile : tree.nodeAt path with
    | some (.file old) => .ok (tree.overwrite path content old isFile)
    | _ => .error .isDirectory

theorem replace_ok (replaced : tree.replace path content = .ok next) :
    (∃ old, tree.nodeAt path = some (.file old))
      ∧ next.nodeAt = update tree.nodeAt path (some (.file content)) := by
  unfold replace at replaced
  split at replaced
  · cases replaced
  · split at replaced
    · rename_i old isFile
      have same := Except.ok.inj replaced
      rw [← same]
      exact ⟨⟨old, isFile⟩, nodeAt_overwrite⟩
    · cases replaced

theorem replace_succeeds {old : Bytes} (isFile : tree.nodeAt path = some (.file old)) :
    ∃ next, tree.replace path content = .ok next := by
  unfold replace
  rw [look_of_nodeAt isFile]
  simp only
  split
  · exact ⟨_, rfl⟩
  · rename_i notFile
    exact absurd isFile (notFile old)

/-- `fs::remove_file`. -/
def removeFile (tree : Tree) (path : VaultPath) : Except IoError Tree :=
  match tree.look path with
  | .error failure => .error failure
  | .ok _ =>
    match isFile : tree.nodeAt path with
    | some (.file _) => .ok (tree.erase path (childless_of_file isFile))
    | _ => .error .isDirectory

theorem removeFile_ok (removed : tree.removeFile path = .ok next) :
    (∃ old, tree.nodeAt path = some (.file old)) ∧ next.nodeAt = update tree.nodeAt path none := by
  unfold removeFile at removed
  split at removed
  · cases removed
  · split at removed
    · rename_i old isFile
      have same := Except.ok.inj removed
      rw [← same]
      exact ⟨⟨old, isFile⟩, nodeAt_erase⟩
    · cases removed

theorem removeFile_succeeds {old : Bytes} (isFile : tree.nodeAt path = some (.file old)) :
    ∃ next, tree.removeFile path = .ok next := by
  unfold removeFile
  rw [look_of_nodeAt isFile]
  simp only
  split
  · exact ⟨_, rfl⟩
  · rename_i notFile
    exact absurd isFile (notFile old)

/-- `fs::remove_dir`. -/
def removeDir (tree : Tree) (path : VaultPath) : Except IoError Tree :=
  match tree.look path with
  | .error failure => .error failure
  | .ok (.file _) => .error .notDirectory
  | .ok .folder =>
    if childless : ∀ entry ∈ tree.entries.rows, path ∉ entry.path.ancestors then
      .ok (tree.erase path childless)
    else
      .error .directoryNotEmpty

theorem removeDir_ok (removed : tree.removeDir path = .ok next) : tree.nodeAt path = some .folder
      ∧ (∀ below, path ∈ below.ancestors → tree.nodeAt below = none)
      ∧ next.nodeAt = update tree.nodeAt path none := by
  unfold removeDir at removed
  cases found : tree.nodeAt path with
  | none =>
    have ⟨failure, failed⟩ := look_of_absent found
    rw [failed] at removed
    cases removed
  | some node =>
    rw [look_of_nodeAt found] at removed
    cases node with
    | file content => cases removed
    | folder =>
      simp only at removed
      split_ifs at removed with childless
      have same := Except.ok.inj removed
      rw [← same]
      refine ⟨rfl, ?_, nodeAt_erase⟩
      intro below above
      by_contra present
      have ⟨node, isNode⟩ := ne_none_iff_exists'.1 present
      exact childless _ (Table.mem_of_get (get_eq_some isNode)) above

theorem removeDir_succeeds (isFolder : tree.nodeAt path = some .folder)
    (isEmpty : ∀ below, path ∈ below.ancestors → tree.nodeAt below = none) :
    ∃ next, tree.removeDir path = .ok next := by
  unfold removeDir
  rw [look_of_nodeAt isFolder]
  simp only
  have childless : ∀ entry ∈ tree.entries.rows, path ∉ entry.path.ancestors := by
    intro entry member above
    have absent := isEmpty entry.path above
    rw [nodeAt, Table.get_of_mem member] at absent
    cases absent
  rw [dif_pos childless]
  exact ⟨_, rfl⟩

def removeBelow (tree : Tree) (folder : VaultPath) : Tree where
  entries := ⟨tree.entries.rows.filter fun entry =>
      entry.path ≠ folder ∧ folder ∉ entry.path.ancestors,
    tree.entries.distinct.sublist (filter_sublist.map TreeEntry.path)⟩
  closed := by
    intro entry member ancestor above
    have ⟨present, kept⟩ := mem_filter.1 member
    have outside : entry.path ≠ folder ∧ folder ∉ entry.path.ancestors := by simpa using kept
    have isEntry := Table.mem_of_get (tree.closed entry present ancestor above)
    have notFolder : ancestor ≠ folder := fun same => outside.2 (same ▸ above)
    have notBelow : folder ∉ ancestor.ancestors := fun below =>
      outside.2 (VaultPath.ancestors_trans below above)
    have isKept : (⟨ancestor, .folder⟩ : TreeEntry) ∈ tree.entries.rows.filter fun entry =>
        entry.path ≠ folder ∧ folder ∉ entry.path.ancestors := by
      rw [mem_filter]
      exact ⟨isEntry, by simp [notFolder, notBelow]⟩
    exact @Table.get_of_mem VaultPath TreeEntry TreeEntry.path _ ⟨_, _⟩ ⟨ancestor, .folder⟩ isKept

theorem removeDir_of_open (isOpen : tree.Open path) (absent : tree.nodeAt path = none) :
    tree.removeDir path = .error .notFound := by
  rw [removeDir, look_of_open isOpen absent]

end Tree

end Clepsydra.Vault
