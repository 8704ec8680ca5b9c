import Clepsydra.Library.Sqlite
import Clepsydra.Vault.Tree

/-!
Owns: the deletion of a folder: the pages, files and rows that are removed.

Proves: the rows left and the pages reported, and exactly when these are the pages below the folder.
-/

namespace Clepsydra.Mutate

open Library Library.Sqlite Vault List

/-! ### The index -/

/-- A row of `pages`: the path and the other columns. -/
structure PageRow (Columns : Type) where
  path : VaultPath
  columns : Columns

abbrev PageIndex (Columns : Type) := Table VaultPath (PageRow Columns) PageRow.path

section Delete

variable {Columns IndexError Meta : Type}

def folderPattern (folder : VaultPath) : String := folder.asStr ++ "/" ++ "%"

/-- `SELECT path FROM pages WHERE path LIKE ?1 ORDER BY path`, and each text read as a path. -/
def indexedPaths (nfc : String → String) (index : PageIndex Columns) (folder : VaultPath) :
    List VaultPath :=
  let rows := index.rows.filter fun row => likePlain (folderPattern folder) row.path.asStr
  ((rows.map PageRow.path).insertionSort (· ≤ ·)).filterMap fun path =>
    (VaultPath.new nfc path.asStr).toOption

inductive FolderError (IndexError : Type) where
  | notFound (folder : VaultPath)
  | conflict (message : String)
  | filesystem (source : IoError)
  | reconcile (source : IndexError)
  | index (source : IndexError)

structure FolderFaults (IndexError : Type) where
  select : Option IndexError
  remove : Option (IoError × Tree)
  apply : VaultPath → Option IndexError

/-- `IndexMutation::Deleted` for each path in turn. -/
def applyDeleted (faults : FolderFaults IndexError) (index : PageIndex Columns) :
    List VaultPath → PageIndex Columns × Except (FolderError IndexError) Unit
  | [] => (index, .ok ())
  | path :: rest =>
    match faults.apply path with
    | some source => (index, .error (.index source))
    | none => applyDeleted faults (index.erase path) rest

/-! ### The files -/

/-- `extension() == Some("md")`. -/
def hasMarkdownExtension (path : VaultPath) : Bool :=
  (path.components.getLast path.nonempty).toList.length > 3 &&
    ".md".toList.isSuffixOf (path.components.getLast path.nonempty).toList

def hookTargets (fromFile : VaultPath → Bytes → Option Meta) (files : Tree) (folder : VaultPath) :
    List (VaultPath × Meta) :=
  files.entries.rows.filterMap fun entry =>
    match entry.node with
    | .folder => none
    | .file content =>
      if folder ∈ entry.path.ancestors ∧ hasMarkdownExtension entry.path then
        (fromFile entry.path content).map fun page => (entry.path, page)
      else none

structure DeleteFolderResult (Meta : Type) where
  removed : List String
  hookTargets : List (VaultPath × Meta)

structure FolderState (Columns : Type) where
  files : Tree
  index : PageIndex Columns

def removeFolder (faults : FolderFaults IndexError) (files : Tree) (folder : VaultPath)
    (recursive : Bool) : Tree × Except (FolderError IndexError) Unit :=
  if ¬files.isDir folder then (files, .error (.notFound folder))
  else
    match faults.remove with
    | some (source, left) => (left, .error (.filesystem source))
    | none =>
      if recursive then (files.removeBelow folder, .ok ())
      else
        match files.removeDir folder with
        | .ok left => (left, .ok ())
        | .error .directoryNotEmpty =>
          (files, .error (.conflict "folder is not empty; use recursive=true to delete"))
        | .error source => (files, .error (.filesystem source))

/-- `delete_folder`. -/
def deleteFolder (nfc : String → String) (fromFile : VaultPath → Bytes → Option Meta)
    (faults : FolderFaults IndexError) (folder : VaultPath) (recursive : Bool)
    (state : FolderState Columns) :
    FolderState Columns × Except (FolderError IndexError) (DeleteFolderResult Meta) :=
  match faults.select with
  | some source => (state, .error (.reconcile source))
  | none =>
    let paths := indexedPaths nfc state.index folder
    let targets := if recursive then hookTargets fromFile state.files folder else []
    match removeFolder faults state.files folder recursive with
    | (files, .error failure) => (⟨files, state.index⟩, .error failure)
    | (files, .ok ()) =>
      match applyDeleted faults state.index paths with
      | (index, .error failure) => (⟨files, index⟩, .error failure)
      -- the list of removed paths is allocated and never filled
      | (index, .ok ()) => (⟨files, index⟩, .ok ⟨[], targets⟩)

/-! ### What is selected -/

variable {folder : VaultPath} {nfc : String → String}

theorem likePlain_of_isAncestor {path : VaultPath} (above : folder.IsAncestor path) :
    likePlain (folderPattern folder) path.asStr = true := by
  have ⟨⟨lower, split⟩, different⟩ := above
  have below : lower ≠ [] := by
    intro isEmpty
    rw [isEmpty, append_nil] at split
    exact different (VaultPath.ext_components split)
  have text : path.asStr.toList = folder.asStr.toList ++ '/' :: (VaultPath.join lower).toList := by
    rw [VaultPath.asStr, ← split]
    exact VaultPath.toList_join_append folder.nonempty below
  have pattern : (folderPattern folder).toList = folder.asStr.toList ++ ['/'] ++ ['%'] := by
    rw [folderPattern, String.toList_append, String.toList_append]
    rfl
  have matched := likeMatches_plain_append (folder.asStr.toList ++ ['/']) (VaultPath.join lower).toList
  rw [likePlain, pattern, text]
  rwa [append_assoc _ ['/'] (VaultPath.join lower).toList, singleton_append] at matched

/-- What the index promises of its paths: they are texts of `VaultPath::new`. -/
def Stored (nfc : String → String) (index : PageIndex Columns) : Prop :=
  ∀ row ∈ index.rows, nfc row.path.asStr = row.path.asStr ∧ '\\' ∉ row.path.asStr.toList

theorem mem_indexedPaths {index : PageIndex Columns} (stored : Stored nfc index) (path : VaultPath) :
    path ∈ indexedPaths nfc index folder ↔
      ∃ row ∈ index.rows, likePlain (folderPattern folder) row.path.asStr = true ∧ row.path = path := by
  have back : ∀ row ∈ index.rows, VaultPath.new nfc row.path.asStr = .ok row.path :=
    fun row member => VaultPath.new_asStr (stored row member).1 (stored row member).2
  unfold indexedPaths
  simp only [mem_filterMap, mem_insertionSort, mem_map, mem_filter]
  constructor
  · rintro ⟨_, ⟨row, ⟨member, selected⟩, rfl⟩, read⟩
    rw [back row member] at read
    exact ⟨row, member, selected, Option.some.inj read⟩
  · rintro ⟨row, member, selected, rfl⟩
    refine ⟨row.path, ⟨row, ⟨member, selected⟩, rfl⟩, ?_⟩
    rw [back row member]
    rfl

/-! ### What is removed -/

variable {faults : FolderFaults IndexError} {fromFile : VaultPath → Bytes → Option Meta}
  {recursive : Bool} {state next : FolderState Columns} {result : DeleteFolderResult Meta}

theorem rows_applyDeleted {index next : PageIndex Columns} {paths : List VaultPath}
    (applied : applyDeleted faults index paths = (next, .ok ())) (row : PageRow Columns) :
    row ∈ next.rows ↔ row ∈ index.rows ∧ row.path ∉ paths := by
  induction paths generalizing index with
  | nil =>
    obtain rfl : index = next := congrArg Prod.fst applied
    simp
  | cons path rest ih =>
    unfold applyDeleted at applied
    cases fault : faults.apply path with
    | some source =>
      rw [fault] at applied
      exact nomatch congrArg Prod.snd applied
    | none =>
      rw [fault] at applied
      rw [ih applied, Table.erase, mem_filter, mem_cons, not_or]
      simp [and_assoc]

theorem deleteFolder_ok
    (deleted : deleteFolder nfc fromFile faults folder recursive state = (next, .ok result)) :
    applyDeleted faults state.index (indexedPaths nfc state.index folder) = (next.index, .ok ()) ∧
      result.removed = [] := by
  unfold deleteFolder at deleted
  cases select : faults.select with
  | some source =>
    rw [select] at deleted
    exact nomatch congrArg Prod.snd deleted
  | none =>
    rw [select] at deleted
    dsimp only at deleted
    split at deleted
    · exact nomatch congrArg Prod.snd deleted
    · split at deleted
      · exact nomatch congrArg Prod.snd deleted
      · rename_i index applied
        obtain rfl := congrArg Prod.fst deleted
        obtain rfl := Except.ok.inj (congrArg Prod.snd deleted)
        exact ⟨applied, rfl⟩

theorem rows_deleteFolder (stored : Stored nfc state.index)
    (deleted : deleteFolder nfc fromFile faults folder recursive state = (next, .ok result))
    (row : PageRow Columns) :
    row ∈ next.index.rows ↔
      row ∈ state.index.rows ∧ likePlain (folderPattern folder) row.path.asStr = false := by
  rw [rows_applyDeleted (deleteFolder_ok deleted).1, and_congr_right_iff]
  intro member
  rw [mem_indexedPaths stored, ← Bool.not_eq_true]
  constructor
  · exact fun unselected selected => unselected ⟨row, member, selected, rfl⟩
  · rintro unmatched ⟨other, -, selected, same⟩
    exact unmatched (same ▸ selected)

/-! ### Exact deletions -/

def RowsExact (folder : VaultPath) (before after : PageIndex Columns) : Prop :=
  ∀ row, row ∈ after.rows ↔ row ∈ before.rows ∧ ¬folder.IsAncestor row.path

def ReportExact (folder : VaultPath) (before : PageIndex Columns) (removed : List String) : Prop :=
  ∀ text, text ∈ removed ↔ ∃ row ∈ before.rows, folder.IsAncestor row.path ∧ row.path.asStr = text

theorem rowsExact_iff (stored : Stored nfc state.index)
    (deleted : deleteFolder nfc fromFile faults folder recursive state = (next, .ok result)) :
    RowsExact folder state.index next.index ↔ ∀ row ∈ state.index.rows,
      likePlain (folderPattern folder) row.path.asStr = true → folder.IsAncestor row.path := by
  have left := rows_deleteFolder stored deleted
  constructor
  · intro exact row member selected
    by_contra outside
    have kept := (left row).1 ((exact row).2 ⟨member, outside⟩)
    rw [selected] at kept
    exact nomatch kept.2
  · intro onlyBelow row
    rw [left row, and_congr_right_iff]
    intro member
    rw [← Bool.not_eq_true]
    exact not_congr ⟨onlyBelow row member, likePlain_of_isAncestor⟩

theorem reportExact_iff
    (deleted : deleteFolder nfc fromFile faults folder recursive state = (next, .ok result)) :
    ReportExact folder state.index result.removed ↔
      ∀ row ∈ state.index.rows, ¬folder.IsAncestor row.path := by
  unfold ReportExact
  rw [(deleteFolder_ok deleted).2]
  constructor
  · intro exact row member below
    exact nomatch (exact row.path.asStr).2 ⟨row, member, below, rfl⟩
  · rintro nothing text
    constructor
    · exact fun member => nomatch member
    · rintro ⟨row, member, below, -⟩
      exact absurd below (nothing row member)

/-- A recursive deletion removes and reports the pages below the folder just where no page matches
its pattern. -/
theorem deleteFolder_exact_iff {nfc : String → String}
    {fromFile : VaultPath → Bytes → Option Meta} {faults : FolderFaults IndexError}
    {folder : VaultPath} {state next : FolderState Columns} {result : DeleteFolderResult Meta}
    (stored : Stored nfc state.index)
    (deleted : deleteFolder nfc fromFile faults folder true state = (next, .ok result)) :
    (RowsExact folder state.index next.index ∧ ReportExact folder state.index result.removed) ↔
      ∀ row ∈ state.index.rows, likePlain (folderPattern folder) row.path.asStr = false := by
  rw [rowsExact_iff stored deleted, reportExact_iff deleted]
  constructor
  · rintro ⟨onlyBelow, nothing⟩ row member
    by_contra selected
    rw [Bool.not_eq_false] at selected
    exact nothing row member (onlyBelow row member selected)
  · intro unmatched
    constructor
    · intro row member selected
      rw [unmatched row member] at selected
      cases selected
    · intro row member below
      have selected := likePlain_of_isAncestor below
      rw [unmatched row member] at selected
      cases selected

end Delete

/-! ### Two folders -/

theorem isComponent_example {component : String} (member : component ∈ ["a_b", "axb", "p.md"]) :
    IsComponent component := by
  simp only [mem_cons, not_mem_nil, or_false] at member
  rcases member with same | same | same <;> rw [same] <;>
    exact ⟨by decide, by decide, by decide, by decide⟩

/-- The folder `a_b`, whose name is a pattern too. -/
def wildcardFolder : VaultPath :=
  ⟨["a_b"], by decide, fun _ member => isComponent_example (by simp_all)⟩

def otherFolder : VaultPath :=
  ⟨["axb"], by decide, fun _ member => isComponent_example (by simp_all)⟩

/-- The page `p.md` of a folder. -/
def pageIn (folder : VaultPath) : VaultPath where
  components := folder.components ++ ["p.md"]
  nonempty := by simp
  sound := by
    intro component member
    rcases mem_append.1 member with inFolder | isName
    · exact folder.sound component inFolder
    · rw [mem_singleton.1 isName]
      exact isComponent_example (by decide)

def pageAtRoot : VaultPath :=
  ⟨["p.md"], by decide, fun _ member => isComponent_example (by simp_all)⟩

def folderFiles : Tree :=
  ⟨⟨[⟨wildcardFolder, .folder⟩, ⟨pageIn wildcardFolder, .file []⟩, ⟨otherFolder, .folder⟩,
    ⟨pageIn otherFolder, .file []⟩], by decide⟩, by decide⟩

def noFaults : FolderFaults Unit := ⟨none, none, fun _ => none⟩

def indexOf (path : VaultPath) : PageIndex Unit := ⟨[⟨path, ()⟩], by simp⟩

def emptied (index : PageIndex Unit) : FolderState Unit :=
  ⟨folderFiles.removeBelow wildcardFolder, index⟩

/-- The folder's own page is not in the index yet. -/
theorem deleteFolder_exact_iff_unindexed :
    RowsExact wildcardFolder (indexOf pageAtRoot) (indexOf pageAtRoot) ∧
      ReportExact wildcardFolder (indexOf pageAtRoot) [] := by
  have stored : Stored id (indexOf pageAtRoot) := by
    intro row member
    rw [mem_singleton.1 member]
    exact ⟨rfl, by decide⟩
  apply (@deleteFolder_exact_iff Unit Unit Unit id (fun _ _ => some ()) noFaults wildcardFolder
    ⟨folderFiles, indexOf pageAtRoot⟩ (emptied (indexOf pageAtRoot))
    ⟨[], [(pageIn wildcardFolder, ())]⟩ stored (by rfl)).2
  intro row member
  rw [mem_singleton.1 member]
  decide

/-- The page of the folder is removed and not reported, and so is a page of another folder. -/
theorem deleteFolder_misses :
    (∃ next result, deleteFolder id (fun _ _ => some ()) noFaults wildcardFolder true
        ⟨folderFiles, indexOf (pageIn wildcardFolder)⟩ = (next, .ok result) ∧
      ¬ReportExact wildcardFolder (indexOf (pageIn wildcardFolder)) result.removed) ∧
    ∃ next result, deleteFolder id (fun _ _ => some ()) noFaults wildcardFolder true
        ⟨folderFiles, indexOf (pageIn otherFolder)⟩ = (next, .ok result) ∧
      ¬RowsExact wildcardFolder (indexOf (pageIn otherFolder)) next.index := by
  refine ⟨⟨_, _, rfl, fun exact => ?_⟩, _, _, rfl, fun exact => ?_⟩
  · have below : wildcardFolder.IsAncestor (pageIn wildcardFolder) := ⟨⟨["p.md"], rfl⟩, by decide⟩
    exact nomatch (exact _).2 ⟨⟨pageIn wildcardFolder, ()⟩, mem_singleton_self _, below, rfl⟩
  · have outside : ¬wildcardFolder.IsAncestor (pageIn otherFolder) := by
      intro above
      exact absurd above.1 (by decide)
    exact nomatch (exact ⟨pageIn otherFolder, ()⟩).2 ⟨mem_singleton_self _, outside⟩

end Clepsydra.Mutate
