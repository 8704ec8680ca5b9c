import Clepsydra.Vault.PageKind
import Clepsydra.Vault.Path

/-!
Owns: the path that the declared kind and the declared project of a page project it to.

Proves: when a page that was moved there stays there.
-/

namespace Clepsydra.Vault

open List String

def Kind.canonicalFolder : Kind → String
  | .note => "notes"
  | .project => "projects"
  | .journal => "journals"
  | .todo => "todos"
  | .quote => "quotes"
  | .book => "books"
  | .capture => "captures"
  | .code => "code"
  | .person => "people"
  | .task => "tasks"
  | .cycle => "cycles"
  | .recipe => "recipes"
  | .meeting => "meetings"
  | .archive => "archive"
  | .aiConversation => "conversations"
  | .aiJournal => "ai-journals"

def folderText : Option String → String
  | some folder => folder ++ "/"
  | none => ""

def expectedSub (declaredProject currentSub : Option String) : Option String :=
  match declaredProject with
  | some project => if project ≠ "" then some project else currentSub
  | none => currentSub

def expectedTop (declaredKind : Option Kind) (currentTop : Option String) : Option String :=
  match declaredKind with
  | some kind => some kind.canonicalFolder
  | none => currentTop

/-- `project_path`. -/
def projectPath (current : String) (declaredKind : Option Kind) (declaredProject : Option String) :
    Option String :=
  let trimmed := String.ofList (current.toList.dropWhile (· = '/'))
  let comps := (VaultPath.pieces trimmed).filter (· ≠ "")
  match comps.getLast? with
  | none => none
  | some filename =>
    let dirs := comps.dropLast
    let currentSub := if 2 ≤ dirs.length then some (VaultPath.join dirs.tail) else none
    let expected := folderText (expectedTop declaredKind dirs.head?)
      ++ folderText (expectedSub declaredProject currentSub) ++ filename
    if expected = trimmed then none else some expected

/-! ### Unicode normalization -/

/-- NFC treats the texts around a slash on their own, and leaves ASCII as it is. -/
structure Normalization (nfc : String → String) : Prop where
  separator : ∀ left right : String, nfc (left ++ "/" ++ right) = nfc left ++ "/" ++ nfc right
  noSeparator : ∀ text : String, '/' ∉ text.toList → '/' ∉ (nfc text).toList
  ascii : ∀ text : String, (text.toList.all fun character => decide (character.toNat < 128)) = true →
    nfc text = text

namespace VaultPath

theorem join_cons {first : String} {rest : List String} (more : rest ≠ []) :
    join (first :: rest) = first ++ "/" ++ join rest := by
  apply toList_inj.1
  rw [toList_join_cons more]
  simp

theorem join_concat {directories : List String} (name : String) (some : directories ≠ []) :
    join (directories ++ [name]) = join directories ++ "/" ++ name := by
  apply toList_inj.1
  rw [toList_join_concat name some]
  simp

theorem join_singleton (name : String) : join [name] = name := by
  simp [join]

theorem pieces_append (left right : String) :
    pieces (left ++ "/" ++ right) = pieces left ++ pieces right := by
  have split : (left ++ "/" ++ right).toList = left.toList ++ '/' :: right.toList := by simp
  unfold pieces
  rw [split, splitOn_append_cons_self, map_append]

theorem pieces_of_noSeparator {text : String} (noSeparator : '/' ∉ text.toList) :
    pieces text = [text] := by
  unfold pieces
  rw [splitOn_eq_singleton noSeparator]
  simp

theorem join_pieces (text : String) : join (pieces text) = text := by
  unfold join pieces
  rw [List.map_map]
  have identity : String.toList ∘ String.ofList = id := by
    funext characters
    simp
  rw [identity, List.map_id, intercalate_splitOn]
  simp

theorem pieces_ne_nil (text : String) : pieces text ≠ [] := by
  unfold pieces
  simp

theorem noSeparator_of_mem_pieces {text piece : String} (member : piece ∈ pieces text) :
    '/' ∉ piece.toList := by
  have ⟨characters, inText, same⟩ := mem_map.1 member
  rw [← same, toList_ofList]
  exact notMem_of_mem_splitOn _ _ inText

theorem pieces_nfc {nfc : String → String} (normal : Normalization nfc) (text : String) :
    pieces (nfc text) = (pieces text).map nfc := by
  have general : ∀ parts : List String, parts ≠ [] → (∀ part ∈ parts, '/' ∉ part.toList) →
      pieces (nfc (join parts)) = parts.map nfc := by
    intro parts
    induction parts with
    | nil => exact fun some => absurd rfl some
    | cons first rest ih =>
      intro _ noSeparator
      have firstFresh := normal.noSeparator first (noSeparator first mem_cons_self)
      by_cases more : rest = []
      · rw [more, join_singleton, pieces_of_noSeparator firstFresh]
        rfl
      · rw [join_cons more, normal.separator, pieces_append, pieces_of_noSeparator firstFresh,
          ih more fun part member =>
            noSeparator part (mem_cons_of_mem _ member)]
        rfl
  have joined := general (pieces text) (pieces_ne_nil text) fun _ => noSeparator_of_mem_pieces
  rw [join_pieces] at joined
  exact joined

theorem isPathText_iff {nfc : String → String} {text : String}
    (noParent : ".." ∉ pieces (nfc text)) (noBackslash : '\\' ∉ text.toList) :
    (∃ folder, new nfc text = .ok folder ∧ folder.asStr = text)
      ↔ pieces text = (pieces (nfc text)).filter (fun piece => piece ≠ "" ∧ piece ≠ ".") := by
  constructor
  · intro ⟨folder, valid, isText⟩
    rw [← (components_of_new valid).1, ← isText, pieces_asStr]
  · intro cleaned
    have soundPiece : ∀ piece ∈ pieces text, piece ≠ "" := by
      intro piece member
      rw [cleaned] at member
      have kept := (mem_filter.1 member).2
      simp only [decide_eq_true_eq] at kept
      exact kept.1
    have notEmpty : text ≠ "" := by
      intro isEmpty
      have single : pieces "" = [""] := by decide
      rw [isEmpty, single] at soundPiece
      exact soundPiece "" mem_cons_self rfl
    have notAbsolute : text.toList.head? ≠ some '/' := by
      intro isAbsolute
      cases characters : text.toList with
      | nil =>
        rw [characters] at isAbsolute
        cases isAbsolute
      | cons first rest =>
        rw [characters] at isAbsolute
        cases isAbsolute
        have split := splitOn_append_cons_self [] rest (a := '/')
        refine soundPiece "" ?_ rfl
        unfold pieces
        rw [characters]
        rw [nil_append] at split
        rw [split]
        simp
    have someComponents : (pieces (nfc text)).filter (fun piece => piece ≠ "" ∧ piece ≠ ".") ≠ [] := by
      rw [← cleaned]
      exact pieces_ne_nil text
    unfold new
    rw [if_neg notEmpty, if_neg noBackslash, if_neg notAbsolute, dif_neg noParent]
    dsimp only
    rw [dif_neg someComponents]
    refine ⟨_, rfl, ?_⟩
    show join ((pieces (nfc text)).filter fun piece => piece ≠ "" ∧ piece ≠ ".") = text
    rw [← cleaned, join_pieces]

end VaultPath

/-! ### The projected path of a page -/

variable {filename : String}

/-- What a page in the folders `dirs` is projected to. -/
def expectedPath (dirs : List String) (filename : String) (declaredKind : Option Kind)
    (declaredProject : Option String) : String :=
  folderText (expectedTop declaredKind dirs.head?) ++ folderText (expectedSub declaredProject
      (if 2 ≤ dirs.length then some (VaultPath.join dirs.tail) else none)) ++ filename

theorem dropWhile_slash (page : VaultPath) :
    page.asStr.toList.dropWhile (· = '/') = page.asStr.toList := by
  have notAbsolute : page.asStr.toList.head? ≠ some '/' := by
    intro isAbsolute
    have ⟨rest, starts⟩ := head?_eq_some_iff.1 isAbsolute
    have split := splitOn_append_cons_self [] rest (a := '/')
    rw [nil_append, ← starts] at split
    have pieces : VaultPath.pieces page.asStr = "" :: (rest.splitOn '/').map String.ofList := by
      unfold VaultPath.pieces
      rw [split]
      simp
    rw [VaultPath.pieces_asStr] at pieces
    exact (page.sound "" (pieces ▸ mem_cons_self)).nonempty rfl
  cases characters : page.asStr.toList with
  | nil => rfl
  | cons first rest =>
    rw [characters] at notAbsolute
    rw [dropWhile_cons_of_neg]
    intro isSlash
    exact notAbsolute (by simpa using isSlash)

theorem projectPath_asStr {page : VaultPath} {dirs : List String}
    (split : page.components = dirs ++ [filename]) (declaredKind : Option Kind)
    (declaredProject : Option String) :
    projectPath page.asStr declaredKind declaredProject
      = if expectedPath dirs filename declaredKind declaredProject = page.asStr then none
        else some (expectedPath dirs filename declaredKind declaredProject) := by
  have comps : (VaultPath.pieces page.asStr).filter (· ≠ "") = dirs ++ [filename] := by
    rw [VaultPath.pieces_asStr, split, filter_eq_self]
    intro component member
    have sound := page.sound component (split ▸ member)
    simp [sound.nonempty]
  unfold projectPath
  simp only [dropWhile_slash, ofList_toList, comps, getLast?_concat, dropLast_concat]
  rfl

/-! ### Where it settles -/

variable {nfc : String → String} {target : VaultPath}

/-- A project decides nothing, or it is the text of a vault path and there is a folder to put it
under. -/
def Settles (nfc : String → String) (page : VaultPath) (declaredKind : Option Kind)
    (declaredProject : Option String) : Prop :=
  ∀ project : String, declaredProject = some project → project ≠ "" →
    (declaredKind.isSome = true ∨ 2 ≤ page.components.length)
      ∧ ∃ folder, VaultPath.new nfc project = .ok folder ∧ folder.asStr = project

theorem isComponent_canonicalFolder (kind : Kind) : IsComponent kind.canonicalFolder := by
  cases kind <;> exact ⟨by decide, by decide, by decide, by decide⟩

variable (normal : Normalization nfc)

include normal

theorem nfc_component {page : VaultPath} (normalized : nfc page.asStr = page.asStr)
    {component : String} (member : component ∈ page.components) : nfc component = component := by
  have pieces := VaultPath.pieces_nfc normal page.asStr
  rw [normalized, VaultPath.pieces_asStr] at pieces
  have ⟨index, inside, isComponent⟩ := mem_iff_getElem.1 member
  have atIndex := congrArg (fun parts => parts[index]?) pieces
  simp only [getElem?_map, getElem?_eq_getElem inside, Option.map_some,
    Option.some.injEq] at atIndex
  rw [← isComponent]
  exact atIndex.symm

theorem nfc_canonicalFolder (kind : Kind) :
    nfc kind.canonicalFolder = kind.canonicalFolder := by
  apply normal.ascii
  cases kind <;> decide

theorem components_of_join {parts : List String} (some : parts ≠ [])
    (sound : ∀ part ∈ parts, IsComponent part) (fixed : ∀ part ∈ parts, nfc part = part)
    (valid : VaultPath.new nfc (VaultPath.join parts) = .ok target) :
    target.components = parts := by
  rw [(VaultPath.components_of_new valid).1, VaultPath.pieces_nfc normal,
    VaultPath.pieces_join some fun part member => (sound part member).noSeparator,
    map_congr_left fixed, map_id']
  rw [filter_eq_self]
  intro part member
  have soundPart := sound part member
  simp [soundPart.nonempty, soundPart.notCurrent]

theorem settles_by_kind {page : VaultPath} (normalized : nfc page.asStr = page.asStr)
    {dirs : List String} (split : page.components = dirs ++ [filename]) {declaredKind : Option Kind}
    {declaredProject : Option String}
    (noProject : ∀ currentSub, expectedSub declaredProject currentSub = currentSub)
    (moves : expectedPath dirs filename declaredKind declaredProject ≠ page.asStr)
    (valid : VaultPath.new nfc (expectedPath dirs filename declaredKind declaredProject) = .ok target)
    :
    projectPath target.asStr declaredKind declaredProject = none := by
  -- the subfolder is that of the page, so the expected path is the page under another top folder
  have whole : ∀ (top : String) (rest : List String), expectedPath (top :: rest) filename none
      declaredProject = VaultPath.join (top :: (rest ++ [filename])) := by
    intro top rest
    unfold expectedPath
    rw [noProject, VaultPath.join_cons (by simp)]
    cases rest with
    | nil => simp [expectedTop, folderText, VaultPath.join_singleton]
    | cons second others =>
      have joined := VaultPath.join_concat filename (cons_ne_nil second others)
      rw [joined]
      simp [expectedTop, folderText, String.append_assoc]
  cases declaredKind with
  | none =>
    exfalso
    apply moves
    unfold VaultPath.asStr
    rw [split]
    cases dirs with
    | nil =>
      unfold expectedPath
      rw [noProject]
      simp [expectedTop, folderText, VaultPath.join_singleton]
    | cons top rest => exact whole top rest
  | some kind =>
    have underKind : ∀ (top : Option String) (rest : List String),
        folderText (expectedTop (some kind) top)
            ++ folderText (if 1 ≤ rest.length then some (VaultPath.join rest) else none) ++ filename
          = VaultPath.join (kind.canonicalFolder :: (rest ++ [filename])) := by
      intro top rest
      rw [← whole kind.canonicalFolder rest]
      unfold expectedPath
      rw [noProject]
      simp [expectedTop]
    have expected : expectedPath dirs filename (some kind) declaredProject
        = VaultPath.join (kind.canonicalFolder :: (dirs.tail ++ [filename])) := by
      unfold expectedPath
      rw [noProject, ← underKind dirs.head?]
      cases dirs with
      | nil => rfl
      | cons top rest =>
        simp only [length_cons, Nat.reduceLeDiff, tail_cons, head?_cons]
        congr 3
    rw [expected] at valid
    have partOf : ∀ part ∈ dirs.tail ++ [filename], part ∈ page.components := by
      intro part member
      rw [split]
      rcases mem_append.1 member with inTail | isName
      · exact mem_append_left _ (mem_of_mem_tail inTail)
      · exact mem_append_right _ isName
    have targetSplit : target.components = (kind.canonicalFolder :: dirs.tail) ++ [filename] := by
      apply components_of_join normal (by simp) _ _ valid
      · intro part member
        rcases mem_cons.1 member with isFolder | inRest
        · rw [isFolder]
          exact isComponent_canonicalFolder kind
        · exact page.sound part (partOf part inRest)
      · intro part member
        rcases mem_cons.1 member with isFolder | inRest
        · rw [isFolder]
          exact nfc_canonicalFolder normal kind
        · exact nfc_component normal normalized (partOf part inRest)
    have expectedAgain : expectedPath (kind.canonicalFolder :: dirs.tail) filename (some kind)
        declaredProject = target.asStr := by
      unfold VaultPath.asStr
      rw [targetSplit, cons_append, ← underKind (some kind.canonicalFolder)]
      unfold expectedPath
      rw [noProject]
      simp
    rw [projectPath_asStr targetSplit, if_pos expectedAgain]

/-- A page placed in a top folder stays exactly when the project is the text of a vault path. -/
theorem settles_in_folder {top project : String} (topSound : IsComponent top)
    (topFixed : nfc top = top) (nameSound : IsComponent filename)
    (nameFixed : nfc filename = filename) (given : project ≠ "") {declaredKind : Option Kind}
    (underTop : ∀ others : List String, expectedTop declaredKind (top :: others).head? = some top)
    (valid : VaultPath.new nfc (top ++ "/" ++ project ++ "/" ++ filename) = .ok target) :
    projectPath target.asStr declaredKind (some project) = none
      ↔ ∃ folder, VaultPath.new nfc project = .ok folder ∧ folder.asStr = project := by
  obtain ⟨cleaned, noParent, noBackslash⟩ := VaultPath.components_of_new valid
  have pieces : VaultPath.pieces (nfc (top ++ "/" ++ project ++ "/" ++ filename))
      = top :: (VaultPath.pieces (nfc project) ++ [filename]) := by
    rw [normal.separator, normal.separator, topFixed, nameFixed, VaultPath.pieces_append,
      VaultPath.pieces_append, VaultPath.pieces_of_noSeparator topSound.noSeparator,
      VaultPath.pieces_of_noSeparator nameSound.noSeparator]
    simp
  rw [pieces] at cleaned noParent
  have targetSplit : target.components
      = (top :: (VaultPath.pieces (nfc project)).filter (fun piece => piece ≠ "" ∧ piece ≠ "."))
        ++ [filename] := by
    rw [cleaned]
    simp [topSound.nonempty, topSound.notCurrent, nameSound.nonempty, nameSound.notCurrent]
  have parentFree : ".." ∉ VaultPath.pieces (nfc project) := fun member =>
    noParent (mem_cons_of_mem _ (mem_append_left _ member))
  have backslashFree : '\\' ∉ project.toList := by
    intro member
    apply noBackslash
    simp [member]
  rw [VaultPath.isPathText_iff parentFree backslashFree, projectPath_asStr targetSplit]
  have expected : ∀ others : List String, expectedPath (top :: others) filename declaredKind
      (some project) = top ++ "/" ++ project ++ "/" ++ filename := by
    intro others
    unfold expectedPath expectedSub
    simp only [if_pos given, underTop]
    simp [folderText, String.append_assoc]
  rw [expected]
  have sameText : top ++ "/" ++ project ++ "/" ++ filename = target.asStr ↔ VaultPath.pieces project
        = (VaultPath.pieces (nfc project)).filter (fun piece => piece ≠ "" ∧ piece ≠ ".") := by
    constructor
    · intro same
      have samePieces := congrArg VaultPath.pieces same
      rw [VaultPath.pieces_asStr, targetSplit, VaultPath.pieces_append, VaultPath.pieces_append,
        VaultPath.pieces_of_noSeparator topSound.noSeparator,
        VaultPath.pieces_of_noSeparator nameSound.noSeparator] at samePieces
      simpa using samePieces
    · intro samePieces
      unfold VaultPath.asStr
      rw [targetSplit, ← samePieces, cons_append, VaultPath.join_cons (by simp),
        VaultPath.join_concat filename (VaultPath.pieces_ne_nil project), VaultPath.join_pieces]
      simp [String.append_assoc]
  rw [← sameText]
  split_ifs with same
  · exact ⟨fun _ => same, fun _ => rfl⟩
  · exact iff_of_false (by simp) same

theorem never_settles_at_root {project : String} (nameSound : IsComponent filename)
    (nameFixed : nfc filename = filename) (given : project ≠ "")
    (valid : VaultPath.new nfc (project ++ "/" ++ filename) = .ok target) :
    projectPath target.asStr none (some project) ≠ none := by
  have pieces : VaultPath.pieces (nfc (project ++ "/" ++ filename))
      = VaultPath.pieces (nfc project) ++ [filename] := by
    rw [normal.separator, nameFixed, VaultPath.pieces_append,
      VaultPath.pieces_of_noSeparator nameSound.noSeparator]
  have cleaned := (VaultPath.components_of_new valid).1
  rw [pieces] at cleaned
  have targetSplit : target.components
      = (VaultPath.pieces (nfc project)).filter (fun piece => piece ≠ "" ∧ piece ≠ ".")
        ++ [filename] := by
    rw [cleaned]
    simp [nameSound.nonempty, nameSound.notCurrent]
  have shorter : ((VaultPath.pieces (nfc project)).filter
      (fun piece => piece ≠ "" ∧ piece ≠ ".")).length ≤ (VaultPath.pieces project).length := by
    rw [VaultPath.pieces_nfc normal]
    exact (length_filter_le _ _).trans (by simp)
  rw [projectPath_asStr targetSplit]
  generalize (VaultPath.pieces (nfc project)).filter (fun piece => piece ≠ "" ∧ piece ≠ ".")
    = folders at targetSplit shorter ⊢
  -- the expected path has more pieces than the page has components
  have longer : expectedPath folders filename none (some project) ≠ target.asStr := by
    intro same
    have samePieces := congrArg (fun text => (VaultPath.pieces text).length) same
    have nonempty := length_pos_iff.2 (VaultPath.pieces_ne_nil project)
    unfold expectedPath expectedSub at samePieces
    simp only [if_pos given, VaultPath.pieces_asStr, targetSplit] at samePieces
    cases folders with
    | nil =>
      have text : folderText (expectedTop none ([] : List String).head?)
          ++ folderText (some project) ++ filename = project ++ "/" ++ filename := by
        simp [expectedTop, folderText]
      rw [text, VaultPath.pieces_append] at samePieces
      simp [VaultPath.pieces_of_noSeparator nameSound.noSeparator] at samePieces
      exact VaultPath.pieces_ne_nil project samePieces
    | cons top others =>
      have text : folderText (expectedTop none (top :: others).head?)
          ++ folderText (some project) ++ filename
            = top ++ "/" ++ (project ++ "/" ++ filename) := by
        simp [expectedTop, folderText, String.append_assoc]
      rw [text, VaultPath.pieces_append, VaultPath.pieces_append] at samePieces
      have topNonempty := length_pos_iff.2 (VaultPath.pieces_ne_nil top)
      simp only [List.length_append, length_cons, length_nil,
        VaultPath.pieces_of_noSeparator nameSound.noSeparator] at samePieces shorter
      omega
  rw [if_neg longer]
  simp

omit normal

/-- A page that was moved stays there exactly when its project settles. -/
theorem projection_idempotent_iff {nfc : String → String} (normal : Normalization nfc)
    (page : VaultPath) (normalized : nfc page.asStr = page.asStr) (declaredKind : Option Kind)
    (declaredProject : Option String) (moved : String) (target : VaultPath)
    (moves : projectPath page.asStr declaredKind declaredProject = some moved)
    (valid : VaultPath.new nfc moved = .ok target) :
    projectPath target.asStr declaredKind declaredProject = none
      ↔ Settles nfc page declaredKind declaredProject := by
  have split := dropLast_append_getLast page.nonempty
  generalize page.components.dropLast = dirs at split
  generalize page.components.getLast page.nonempty = filename at split
  have nameMember : filename ∈ page.components := by
    rw [← split]
    simp
  have nameSound := page.sound filename nameMember
  have nameFixed := nfc_component normal normalized nameMember
  rw [projectPath_asStr split.symm] at moves
  split_ifs at moves with stays
  cases moves
  by_cases placed : ∃ project, declaredProject = some project ∧ project ≠ ""
  · have ⟨project, isProject, given⟩ := placed
    subst isProject
    have settles_iff : Settles nfc page declaredKind (some project)
        ↔ (declaredKind.isSome = true ∨ 2 ≤ page.components.length)
          ∧ ∃ folder, VaultPath.new nfc project = .ok folder ∧ folder.asStr = project := by
      constructor
      · intro settles
        exact settles project rfl given
      · intro holds other isOther _
        cases isOther
        exact holds
    rw [settles_iff]
    have expected : ∀ top : Option String, expectedTop declaredKind dirs.head? = top →
        expectedPath dirs filename declaredKind (some project)
          = folderText top ++ (project ++ "/") ++ filename := by
      intro top isTop
      unfold expectedPath expectedSub
      rw [isTop]
      simp only [if_pos given]
      rfl
    have inFolder : ∀ top : String, IsComponent top → nfc top = top →
        expectedTop declaredKind dirs.head? = some top →
          (∀ others : List String, expectedTop declaredKind (top :: others).head? = some top) →
            (projectPath target.asStr declaredKind (some project) = none
              ↔ ∃ folder, VaultPath.new nfc project = .ok folder ∧ folder.asStr = project) := by
      intro top topSound topFixed isTop underTop
      apply settles_in_folder normal topSound topFixed nameSound nameFixed given underTop
      rw [expected (some top) isTop] at valid
      simpa [folderText, String.append_assoc] using valid
    cases declaredKind with
    | some kind =>
      rw [inFolder kind.canonicalFolder (isComponent_canonicalFolder kind)
        (nfc_canonicalFolder normal kind) rfl fun _ => rfl]
      simp
    | none =>
      cases dirs with
      | cons top others =>
        have topMember : top ∈ page.components := by
          rw [← split]
          simp
        rw [inFolder top (page.sound top topMember)
          (nfc_component normal normalized topMember) rfl fun _ => rfl]
        have deep : 2 ≤ page.components.length := by
          rw [← split]
          simp
        simp [deep]
      | nil =>
        rw [expected none rfl] at valid
        rw [folderText, empty_append] at valid
        have never := never_settles_at_root normal nameSound nameFixed given valid
        have shallow : ¬2 ≤ page.components.length := by
          rw [← split]
          simp
        simp [shallow, never]
  · have noProject : ∀ currentSub, expectedSub declaredProject currentSub = currentSub := by
      intro currentSub
      cases declaredProject with
      | none => rfl
      | some project =>
        have isEmpty : project = "" := by
          by_contra given
          exact placed ⟨project, rfl, given⟩
        simp [expectedSub, isEmpty]
    refine ⟨fun _ project isProject given => absurd ⟨project, isProject, given⟩ placed, fun _ => ?_⟩
    exact settles_by_kind normal normalized split.symm noProject stays valid

theorem normalization_id : Normalization id where
  separator _ _ := rfl
  noSeparator _ absent := absent
  ascii _ _ := rfl

theorem isComponent_page : IsComponent "x.md" := ⟨by decide, by decide, by decide, by decide⟩

theorem isComponent_folder : IsComponent "clep" := ⟨by decide, by decide, by decide, by decide⟩

/-- The page `x.md` at the root. -/
def rootPage : VaultPath where
  components := ["x.md"]
  nonempty := by decide
  sound := by
    intro component member
    rw [mem_singleton.1 member]
    exact isComponent_page

/-- The page `clep/x.md`. -/
def projectPage : VaultPath where
  components := ["clep", "x.md"]
  nonempty := by decide
  sound := by
    intro component member
    rcases mem_cons.1 member with isFolder | isName
    · rw [isFolder]
      exact isComponent_folder
    · rw [mem_singleton.1 isName]
      exact isComponent_page

theorem projection_idempotent_in_folder :
    projectPath projectPage.asStr none (some "clep/notes") = some "clep/clep/notes/x.md"
      ∧ ∃ target, VaultPath.new id "clep/clep/notes/x.md" = .ok target
        ∧ (projectPath target.asStr none (some "clep/notes") = none
          ↔ Settles id projectPage none (some "clep/notes")) := by
  have moves : projectPath projectPage.asStr none (some "clep/notes") = some "clep/clep/notes/x.md" := by
    decide
  obtain ⟨target, valid⟩ : ∃ target, VaultPath.new id "clep/clep/notes/x.md" = .ok target :=
    ⟨_, rfl⟩
  exact ⟨moves, target, valid, projection_idempotent_iff normalization_id projectPage rfl none
    (some "clep/notes") "clep/clep/notes/x.md" target moves valid⟩

theorem projection_nests_at_root : projectPath rootPage.asStr none (some "clep") = some "clep/x.md"
      ∧ VaultPath.new id "clep/x.md" = .ok projectPage
      ∧ projectPath projectPage.asStr none (some "clep") = some "clep/clep/x.md" :=
  ⟨by decide +kernel, rfl, by decide +kernel⟩

end Clepsydra.Vault
