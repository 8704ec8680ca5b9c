import Clepsydra.Vault.Path

/-!
Owns: the relative path that a rewritten link uses to get from one page to another.

Proves: resolving it gives the target, and climbs no further than to the deepest common folder.
-/

namespace Clepsydra.Mutate

open Vault List

/-! ### The computation -/

/-- `path.rfind('/')`, with the text before that slash and the text after it. -/
def rsplitSlash (path : String) : Option (String × String) :=
  let reversed := path.toList.reverse
  if '/' ∈ reversed then
    some (String.ofList (reversed.dropWhile (· ≠ '/')).tail.reverse,
      String.ofList (reversed.takeWhile (· ≠ '/')).reverse)
  else none

def directoryOf (path : String) : String :=
  match rsplitSlash path with
  | some (directory, _) => directory
  | none => ""

def filenameOf (path : String) : String :=
  match rsplitSlash path with
  | some (_, filename) => filename
  | none => path

def partsOf (directory : String) : List String :=
  if directory = "" then [] else VaultPath.pieces directory

def commonLength (left right : List String) : Nat :=
  ((left.zip right).takeWhile fun pair => pair.1 = pair.2).length

/-- `compute_relative_path`. -/
def computeRelativePath (fromPath toPath : String) : String :=
  let fromDirectory := directoryOf fromPath
  let toDirectory := directoryOf toPath
  let toFilename := filenameOf toPath
  if fromDirectory = toDirectory then toFilename
  else
    let fromParts := partsOf fromDirectory
    let toParts := partsOf toDirectory
    let common := commonLength fromParts toParts
    let ups := fromParts.length - common
    let climbed := (List.replicate ups "../").foldl (· ++ ·) ""
    let descended := (toParts.drop common).foldl (fun result part => result ++ part ++ "/") climbed
    descended ++ toFilename

/-! ### Texts of joined components -/

variable {directories : List String} {name : String}

theorem rsplitSlash_join (some : directories ≠ []) (noSeparator : '/' ∉ name.toList) :
    rsplitSlash (VaultPath.join (directories ++ [name]))
      = Option.some (VaultPath.join directories, name) := by
  have reversed : (VaultPath.join (directories ++ [name])).toList.reverse
      = name.toList.reverse ++ '/' :: (VaultPath.join directories).toList.reverse := by
    rw [VaultPath.toList_join_concat name some]
    simp
  have before : ∀ character ∈ name.toList.reverse, character ≠ '/' := by
    intro character member isSlash
    exact noSeparator (isSlash ▸ mem_reverse.1 member)
  have taken : (name.toList.reverse ++ '/' :: (VaultPath.join directories).toList.reverse).takeWhile
      (fun character => decide (character ≠ '/')) = name.toList.reverse := by
    rw [takeWhile_append_of_pos (by simpa using before)]
    simp
  have dropped : (name.toList.reverse ++ '/' :: (VaultPath.join directories).toList.reverse).dropWhile
      (fun character => decide (character ≠ '/'))
        = '/' :: (VaultPath.join directories).toList.reverse := by
    rw [dropWhile_append_of_pos (by simpa using before)]
    simp
  simp only [rsplitSlash, reversed, taken, dropped]
  rw [if_pos (by simp)]
  simp

theorem rsplitSlash_join_nil (noSeparator : '/' ∉ name.toList) :
    rsplitSlash (VaultPath.join [name]) = none := by
  unfold rsplitSlash VaultPath.join
  rw [if_neg (by simpa using noSeparator)]

theorem partsOf_join (sound : ∀ directory ∈ directories, IsComponent directory) :
    partsOf (VaultPath.join directories) = directories := by
  unfold partsOf
  cases directories with
  | nil => rfl
  | cons first rest =>
    have notEmpty : VaultPath.join (first :: rest) ≠ "" := by
      intro isEmpty
      have soundFirst := sound first mem_cons_self
      have pieces := VaultPath.pieces_join (cons_ne_nil first rest)
        fun component member => (sound component member).noSeparator
      rw [isEmpty] at pieces
      have single : VaultPath.pieces "" = [""] := by decide
      rw [single] at pieces
      exact soundFirst.nonempty (List.cons.inj pieces).1.symm
    rw [if_neg notEmpty]
    exact VaultPath.pieces_join (cons_ne_nil first rest)
      fun component member => (sound component member).noSeparator

/-! ### The deepest common folder -/

/-- `common` is a folder above both, and every folder above both is above it. -/
structure IsDeepestCommon (common left right : List String) : Prop where
  aboveLeft : common <+: left
  aboveRight : common <+: right
  deepest : ∀ other : List String, other <+: left → other <+: right → other <+: common

theorem isDeepestCommon_take (left right : List String) : commonLength left right ≤ left.length
      ∧ right.take (commonLength left right) = left.take (commonLength left right)
      ∧ IsDeepestCommon (left.take (commonLength left right)) left right := by
  induction left generalizing right with
  | nil =>
    exact ⟨le_rfl, by simp [commonLength], nil_prefix, nil_prefix,
      fun other above _ => above⟩
  | cons first rest ih =>
    cases right with
    | nil =>
      exact ⟨by simp [commonLength], by simp [commonLength], nil_prefix,
        nil_prefix, fun other _ above => above⟩
    | cons second others =>
      by_cases same : first = second
      · subst same
        have ⟨short, shared, common⟩ := ih others
        have length : commonLength (first :: rest) (first :: others)
            = commonLength rest others + 1 := by
          simp [commonLength]
        rw [length, take_succ_cons, take_succ_cons, shared]
        refine ⟨Nat.succ_le_succ short, rfl, prefix_cons_inj first |>.2 common.aboveLeft,
          prefix_cons_inj first |>.2 common.aboveRight, ?_⟩
        intro other aboveLeft aboveRight
        cases other with
        | nil => exact nil_prefix
        | cons head tail =>
          rw [cons_prefix_cons] at aboveLeft aboveRight ⊢
          exact ⟨aboveLeft.1, common.deepest tail aboveLeft.2 aboveRight.2⟩
      · have length : commonLength (first :: rest) (second :: others) = 0 := by
          simp [commonLength, same]
        rw [length]
        refine ⟨Nat.zero_le _, rfl, nil_prefix, nil_prefix, ?_⟩
        intro other aboveLeft aboveRight
        cases other with
        | nil => exact nil_prefix
        | cons head tail =>
          rw [cons_prefix_cons] at aboveLeft aboveRight
          exact absurd (aboveLeft.1.symm.trans aboveRight.1) same

theorem commonLength_self (parts : List String) : commonLength parts parts = parts.length := by
  induction parts with
  | nil => rfl
  | cons first rest ih => simpa [commonLength] using ih

/-! ### The text of the relative path -/

theorem toList_foldl_parts (start name : String) (parts : List String) :
    (parts.foldl (fun result part => result ++ part ++ "/") start ++ name).toList
      = start.toList ++ (VaultPath.join (parts ++ [name])).toList := by
  induction parts generalizing start with
  | nil => simp [VaultPath.join]
  | cons first rest ih =>
    rw [foldl_cons, ih, cons_append, VaultPath.toList_join_cons (by simp)]
    simp

theorem foldl_ups (ups : Nat) (start : String) : (List.replicate ups "../").foldl (· ++ ·) start
      = (List.replicate ups "..").foldl (fun result part => result ++ part ++ "/") start := by
  induction ups generalizing start with
  | zero => rfl
  | succ ups ih =>
    rw [replicate_succ, replicate_succ, foldl_cons, foldl_cons, ih, String.append_assoc]
    rfl

def relativeParts (fromDirectories toDirectories : List String) (name : String) : List String :=
  List.replicate (fromDirectories.length - commonLength fromDirectories toDirectories) ".."
    ++ (toDirectories.drop (commonLength fromDirectories toDirectories) ++ [name])

theorem directoryOf_join (noSeparator : '/' ∉ name.toList) :
    directoryOf (VaultPath.join (directories ++ [name])) = VaultPath.join directories := by
  unfold directoryOf
  cases directories with
  | nil =>
    rw [nil_append, rsplitSlash_join_nil noSeparator]
    rfl
  | cons first rest => rw [rsplitSlash_join (cons_ne_nil first rest) noSeparator]

theorem filenameOf_join (noSeparator : '/' ∉ name.toList) :
    filenameOf (VaultPath.join (directories ++ [name])) = name := by
  unfold filenameOf
  cases directories with
  | nil =>
    rw [nil_append, rsplitSlash_join_nil noSeparator]
    simp [VaultPath.join]
  | cons first rest => rw [rsplitSlash_join (cons_ne_nil first rest) noSeparator]

theorem computeRelativePath_join {fromDirectories toDirectories : List String}
    {fromName toName : String} (fromSound : ∀ part ∈ fromDirectories ++ [fromName], IsComponent part)
    (toSound : ∀ part ∈ toDirectories ++ [toName], IsComponent part) :
    computeRelativePath (VaultPath.join (fromDirectories ++ [fromName]))
        (VaultPath.join (toDirectories ++ [toName]))
      = VaultPath.join (relativeParts fromDirectories toDirectories toName) := by
  have fromNoSeparator := (fromSound fromName (by simp)).noSeparator
  have toNoSeparator := (toSound toName (by simp)).noSeparator
  have fromParts : partsOf (VaultPath.join fromDirectories) = fromDirectories :=
    partsOf_join fun part member => fromSound part (mem_append_left _ member)
  have toParts : partsOf (VaultPath.join toDirectories) = toDirectories :=
    partsOf_join fun part member => toSound part (mem_append_left _ member)
  simp only [computeRelativePath, directoryOf_join fromNoSeparator,
    directoryOf_join toNoSeparator, filenameOf_join toNoSeparator, fromParts, toParts]
  split_ifs with sameDirectory
  · have same : fromDirectories = toDirectories := by
      rw [← fromParts, ← toParts, sameDirectory]
    subst same
    unfold relativeParts
    rw [commonLength_self]
    simp [VaultPath.join]
  · apply String.toList_inj.1
    rw [foldl_ups, ← foldl_append, toList_foldl_parts]
    simp [relativeParts]

/-! ### Where it leads -/

/-- `..` drops a component, everything else adds one. -/
def resolveAgainst (directory : List String) (relative : String) : List String :=
  (VaultPath.pieces relative).foldl
    (fun reached piece => if piece = ".." then reached.dropLast else reached ++ [piece]) directory

theorem foldl_climb (count : Nat) (directory : List String) : (List.replicate count "..").foldl
        (fun reached piece => if piece = ".." then reached.dropLast else reached ++ [piece])
        directory
      = directory.take (directory.length - count) := by
  induction count generalizing directory with
  | zero => simp
  | succ count ih =>
    rw [replicate_succ, foldl_cons, if_pos rfl, ih, dropLast_eq_take, take_take, length_take]
    congr 1
    omega

theorem foldl_descend (parts directory : List String) (noParent : ∀ part ∈ parts, part ≠ "..") :
    parts.foldl (fun reached piece => if piece = ".." then reached.dropLast else reached ++ [piece])
        directory
      = directory ++ parts := by
  induction parts generalizing directory with
  | nil => simp
  | cons first rest ih =>
    rw [foldl_cons, if_neg (noParent first mem_cons_self),
      ih _ fun part member => noParent part (mem_cons_of_mem _ member)]
    simp

/-- The path climbs to the deepest common folder, and leads from the one to the other. -/
theorem relative_path_correct (origin target : VaultPath) :
    let relative := computeRelativePath origin.asStr target.asStr
    let directory := origin.components.dropLast
    ∃ climbs : Nat, ∃ below : List String,
      VaultPath.pieces relative = List.replicate climbs ".." ++ below ∧ ".." ∉ below
        ∧ climbs ≤ directory.length
        ∧ IsDeepestCommon (directory.take (directory.length - climbs)) directory
            target.components.dropLast
        ∧ resolveAgainst directory relative = target.components := by
  have originSplit := dropLast_append_getLast origin.nonempty
  have targetSplit := dropLast_append_getLast target.nonempty
  generalize origin.components.dropLast = fromDirectories at originSplit
  generalize origin.components.getLast origin.nonempty = fromName at originSplit
  generalize target.components.dropLast = toDirectories at targetSplit
  generalize target.components.getLast target.nonempty = toName at targetSplit
  have fromSound : ∀ part ∈ fromDirectories ++ [fromName], IsComponent part := by
    rw [originSplit]
    exact origin.sound
  have toSound : ∀ part ∈ toDirectories ++ [toName], IsComponent part := by
    rw [targetSplit]
    exact target.sound
  have relativeText : computeRelativePath origin.asStr target.asStr
      = VaultPath.join (relativeParts fromDirectories toDirectories toName) := by
    unfold VaultPath.asStr
    rw [← originSplit, ← targetSplit]
    exact computeRelativePath_join fromSound toSound
  have ⟨short, shared, common⟩ := isDeepestCommon_take fromDirectories toDirectories
  have belowSound : ∀ part ∈ toDirectories.drop (commonLength fromDirectories toDirectories)
      ++ [toName], IsComponent part := by
    intro part member
    rcases mem_append.1 member with inDirectories | isName
    · exact toSound part (mem_append_left _ (mem_of_mem_drop inDirectories))
    · exact toSound part (mem_append_right _ isName)
  have pieces : VaultPath.pieces (VaultPath.join (relativeParts fromDirectories toDirectories toName))
      = relativeParts fromDirectories toDirectories toName := by
    apply VaultPath.pieces_join
    · simp [relativeParts]
    · intro part member
      rcases mem_append.1 member with isUp | isBelow
      · rw [eq_of_mem_replicate isUp]
        decide
      · exact (belowSound part isBelow).noSeparator
  have noParent : ∀ part ∈ toDirectories.drop (commonLength fromDirectories toDirectories)
      ++ [toName], part ≠ ".." := fun part member => (belowSound part member).notParent
  have climbed : fromDirectories.length
      - (fromDirectories.length - commonLength fromDirectories toDirectories)
        = commonLength fromDirectories toDirectories := by omega
  rw [relativeText]
  refine ⟨fromDirectories.length - commonLength fromDirectories toDirectories, _, pieces,
    fun member => noParent _ member rfl, Nat.sub_le _ _, ?_, ?_⟩
  · rw [climbed]
    exact common
  · unfold resolveAgainst
    rw [pieces]
    unfold relativeParts
    rw [foldl_append, foldl_climb, foldl_descend _ _ noParent, climbed, ← shared,
      ← append_assoc, take_append_drop, targetSplit]

end Clepsydra.Mutate
