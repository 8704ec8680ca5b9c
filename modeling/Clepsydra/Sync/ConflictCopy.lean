import Clepsydra.Vault.Canonical
import Clepsydra.Vault.Tree

/-!
Owns: Conflict Copies: where the incoming side is kept, and which files still hold markers.

Proves: the copies of two paths never share a name, and no copy has that of its original.
-/

namespace Clepsydra.Sync

open Vault List

/-! ### Names -/

/-- `str::rsplit_once`. -/
def rsplitOnce (separator : Char) : List Char → Option (List Char × List Char)
  | [] => none
  | first :: rest =>
    match rsplitOnce separator rest with
    | some (before, after) => some (first :: before, after)
    | none => if first = separator then some ([], rest) else none

def conflictInfix : List Char := ['.', 'c', 'o', 'n', 'f', 'l', 'i', 'c', 't', '.']

def copyName (name short : List Char) : List Char :=
  match rsplitOnce '.' name with
  | some (stem, ext) =>
    if stem = [] then name ++ (conflictInfix ++ short)
    else stem ++ (conflictInfix ++ short) ++ '.' :: ext
  | none => name ++ (conflictInfix ++ short)

def copyPathChars (original short : List Char) : List Char :=
  match rsplitOnce '/' original with
  | some (dir, name) => dir ++ '/' :: copyName name short
  | none => copyName original short

/-- `conflict_copy_path`. -/
def conflictCopyPath (original short : String) : String :=
  String.ofList (copyPathChars original.toList short.toList)

def isLowerHex (character : Char) : Bool :=
  ('0' ≤ character && character ≤ '9') || ('a' ≤ character && character ≤ 'f')

/-- `short_id`: the first seven lowercase hex characters of a digest. -/
structure ShortIds where
  shortId : Bytes → String
  length : ∀ theirs, (shortId theirs).toList.length = 7
  hex : ∀ theirs, ∀ character ∈ (shortId theirs).toList, isLowerHex character = true

/-! ### Contents -/

/-- The frontmatter of a page; `rest` stands for the fields a copy takes over. -/
structure PageMeta where
  id : String
  title : Option String
  extra : List (String × String)
  rest : String

structure PageFormat where
  parseFrontmatter : Bytes → Option (PageMeta × Bytes)
  writePageContent : PageMeta → Bytes → Bytes
  newId : String → Bytes → String

/-- `file_stem`. -/
def fileStem (path : String) : String :=
  let name := match rsplitOnce '/' path.toList with
    | some (_, name) => String.ofList name
    | none => path
  (stripEnd ".md" name).getD name

/-- `conflict_copy_content`. -/
def conflictCopyContent (format : PageFormat) (original : String) (theirs : Bytes)
    (short : String) : Bytes :=
  if (stripEnd ".md" original).isNone then theirs
  else
    match format.parseFrontmatter theirs with
    | none => theirs
    | some (page, body) =>
      let base := page.title.getD (fileStem original)
      format.writePageContent { page with
          id := format.newId original theirs
          title := some (base ++ " (conflict " ++ short ++ ")")
          extra := ("conflict_of", original)
            :: page.extra.filter fun field => field.1 ≠ "conflict_of" }
        body

/-- `str::lines`: a carriage return before a line feed is not part of the line. -/
def lines (text : String) : List (List Char) :=
  let parts := text.toList.splitOn '\n'
  let ended := parts.dropLast.map fun line =>
    if line.getLast? = some '\r' then line.dropLast else line
  ended ++ parts.getLast?.toList.filter fun line => line ≠ []

/-- `has_conflict_markers`. -/
def hasConflictMarkers (content : String) : Bool :=
  let lines := lines content
  lines.any (fun line => "<<<<<<< ".toList.isPrefixOf line)
    && lines.any (fun line => line = "=======".toList)
    && lines.any (fun line => ">>>>>>> ".toList.isPrefixOf line)

/-- `is_lfs_pointer`. -/
def isLfsPointer (bytes : Bytes) : Bool :=
  let firstLine := "version https://git-lfs.github.com/spec/v1".toList
  (firstLine.map fun character => character.toNat.toUInt8).isPrefixOf bytes

/-! ### Copies apart from each other -/

theorem rsplitOnce_of_not_mem {separator : Char} {text : List Char} (absent : separator ∉ text) :
    rsplitOnce separator text = none := by
  induction text with
  | nil => rfl
  | cons first rest ih =>
    have notFirst : first ≠ separator := fun same => absent (same ▸ mem_cons_self)
    have notRest : separator ∉ rest := fun member => absent (mem_cons_of_mem _ member)
    simp only [rsplitOnce, ih notRest, if_neg notFirst]

theorem rsplitOnce_append {separator : Char} {after : List Char} (absent : separator ∉ after)
    (before : List Char) :
    rsplitOnce separator (before ++ separator :: after) = some (before, after) := by
  induction before with
  | nil => simp only [nil_append, rsplitOnce, rsplitOnce_of_not_mem absent, if_true]
  | cons first rest ih =>
    simp only [cons_append, rsplitOnce, ih]

theorem rsplitOnce_cases (separator : Char) (text : List Char) :
    (∃ before after, text = before ++ separator :: after ∧ separator ∉ after)
      ∨ separator ∉ text := by
  induction text with
  | nil => exact .inr not_mem_nil
  | cons first rest ih =>
    rcases ih with ⟨before, after, isRest, absent⟩ | absent
    · exact .inl ⟨first :: before, after, by rw [isRest, cons_append], absent⟩
    · by_cases here : first = separator
      · exact .inl ⟨[], rest, by rw [here, nil_append], absent⟩
      · exact .inr (not_mem_cons_of_ne_of_not_mem (Ne.symm here) absent)

theorem copyName_cases (name short : List Char) : (∃ stem ext, name = stem ++ '.' :: ext ∧ '.' ∉ ext
        ∧ copyName name short = stem ++ (conflictInfix ++ short) ++ '.' :: ext)
      ∨ copyName name short = name ++ (conflictInfix ++ short) := by
  rcases rsplitOnce_cases '.' name with ⟨stem, ext, isName, absent⟩ | absent
  · by_cases hidden : stem = []
    · right
      rw [copyName, isName, rsplitOnce_append absent]
      simp only [if_pos hidden]
    · refine .inl ⟨stem, ext, isName, absent, ?_⟩
      rw [copyName, isName, rsplitOnce_append absent]
      simp only [if_neg hidden]
  · right
    rw [copyName, rsplitOnce_of_not_mem absent]

theorem length_copyName (name short : List Char) :
    (copyName name short).length = name.length + (conflictInfix ++ short).length := by
  rcases copyName_cases name short with ⟨stem, ext, isName, _, isCopy⟩ | isCopy
  · rw [isCopy, isName]
    simp only [length_append, length_cons]
    omega
  · rw [isCopy, length_append]

theorem mem_of_mem_copyName {name short : List Char} {character : Char}
    (member : character ∈ copyName name short) :
    character ∈ name ∨ character ∈ conflictInfix ∨ character ∈ short := by
  rcases copyName_cases name short with ⟨stem, ext, isName, _, isCopy⟩ | isCopy
  · rw [isCopy] at member
    rw [isName]
    simp only [mem_append, mem_cons] at member ⊢
    tauto
  · rw [isCopy] at member
    simpa only [mem_append] using member

section Apart

def SevenHex (short : List Char) : Prop :=
  short.length = 7 ∧ ∀ character ∈ short, isLowerHex character = true

variable {left right short short' : List Char} (sevenHex : SevenHex short)

include sevenHex

theorem SevenHex.not_mem {character : Char} (notHex : isLowerHex character = false) :
    character ∉ short := by
  intro member
  rw [sevenHex.2 character member] at notHex
  cases notHex

theorem SevenHex.sameLength (sevenHex' : SevenHex short') :
    (conflictInfix ++ short).length = (conflictInfix ++ short').length := by
  rw [length_append, length_append, sevenHex.1, sevenHex'.1]

/-- The segment before the last is a digest in one form, and `conflict` in the other. -/
theorem copyForms_ne {stem ext : List Char} (sevenHex' : SevenHex short') (absent : '.' ∉ ext) :
    stem ++ (conflictInfix ++ short) ++ '.' :: ext ≠ right ++ (conflictInfix ++ short') := by
  intro same
  let word := ['o', 'n', 'f', 'l', 'i', 'c', 't']
  have cut : right ++ (conflictInfix ++ short') = (right ++ ['.', 'c']) ++ word
      ++ '.' :: short' := by
    simp [conflictInfix, word]
  have parts : some (stem ++ (conflictInfix ++ short), ext)
      = some ((right ++ ['.', 'c']) ++ word, short') := by
    rw [← rsplitOnce_append absent, same, cut, rsplitOnce_append (sevenHex'.not_mem (by decide))]
  have stems := (Prod.mk.inj (Option.some.inj parts)).1
  rw [← append_assoc] at stems
  have sameLength : short.length = word.length := sevenHex.1
  have isWord : short = word := (append_inj' stems sameLength).2
  have notHex : 'o' ∉ short := sevenHex.not_mem (by decide)
  rw [isWord] at notHex
  exact notHex (by decide)

theorem copyName_injective (sevenHex' : SevenHex short')
    (same : copyName left short = copyName right short') : left = right := by
  have sameLength := sevenHex.sameLength sevenHex'
  rcases copyName_cases left short with ⟨stem, ext, isLeft, absent, isCopy⟩ | isCopy
  · rcases copyName_cases right short' with ⟨stem', ext', isRight, absent', isCopy'⟩ | isCopy'
    · rw [isCopy, isCopy'] at same
      have parts : some (stem ++ (conflictInfix ++ short), ext)
          = some (stem' ++ (conflictInfix ++ short'), ext') := by
        rw [← rsplitOnce_append absent, same, rsplitOnce_append absent']
      have ⟨stems, exts⟩ := Prod.mk.inj (Option.some.inj parts)
      rw [isLeft, isRight, exts, (append_inj' stems sameLength).1]
    · rw [isCopy, isCopy'] at same
      exact absurd same (copyForms_ne sevenHex sevenHex' absent)
  · rcases copyName_cases right short' with ⟨stem', ext', isRight, absent', isCopy'⟩ | isCopy'
    · rw [isCopy, isCopy'] at same
      exact absurd same.symm (copyForms_ne sevenHex' sevenHex absent')
    · rw [isCopy, isCopy'] at same
      exact (append_inj' same sameLength).1

theorem slash_not_mem_copyName (absent : '/' ∉ left) :
    '/' ∉ copyName left short := by
  intro member
  rcases mem_of_mem_copyName member with inName | inInfix | inShort
  · exact absent inName
  · exact absurd inInfix (by decide)
  · exact sevenHex.not_mem (by decide) inShort

theorem copyPathChars_injective (sevenHex' : SevenHex short')
    (same : copyPathChars left short = copyPathChars right short') : left = right := by
  have splits : ∀ path short : List Char, SevenHex short → (∃ dir name, path = dir ++ '/' :: name
          ∧ rsplitOnce '/' (copyPathChars path short) = some (dir, copyName name short))
        ∨ rsplitOnce '/' (copyPathChars path short) = none
          ∧ copyPathChars path short = copyName path short := by
    intro path short sevenHex
    rcases rsplitOnce_cases '/' path with ⟨dir, name, isPath, absent⟩ | absent
    · refine .inl ⟨dir, name, isPath, ?_⟩
      rw [copyPathChars, isPath, rsplitOnce_append absent]
      exact rsplitOnce_append (slash_not_mem_copyName sevenHex absent) dir
    · have isCopy : copyPathChars path short = copyName path short := by
        rw [copyPathChars, rsplitOnce_of_not_mem absent]
      refine .inr ⟨?_, isCopy⟩
      rw [isCopy]
      exact rsplitOnce_of_not_mem (slash_not_mem_copyName sevenHex absent)
  rcases splits left short sevenHex with ⟨dir, name, isLeft, inDir⟩ | ⟨atTop, isCopy⟩
  · rcases splits right short' sevenHex' with ⟨dir', name', isRight, inDir'⟩ | ⟨atTop', _⟩
    · rw [same, inDir'] at inDir
      have ⟨dirs, names⟩ := Prod.mk.inj (Option.some.inj inDir)
      rw [isLeft, isRight, dirs, copyName_injective sevenHex' sevenHex names]
    · rw [same, atTop'] at inDir
      cases inDir
  · rcases splits right short' sevenHex' with ⟨dir', name', isRight, inDir'⟩ | ⟨_, isCopy'⟩
    · rw [same, inDir'] at atTop
      cases atTop
    · rw [isCopy, isCopy'] at same
      exact copyName_injective sevenHex sevenHex' same

omit sevenHex

theorem length_copyPathChars (path short : List Char) :
    (copyPathChars path short).length = path.length + (conflictInfix ++ short).length := by
  rcases rsplitOnce_cases '/' path with ⟨dir, name, isPath, absent⟩ | absent
  · rw [copyPathChars, isPath, rsplitOnce_append absent]
    simp only [length_append, length_cons, length_copyName]
    omega
  · rw [copyPathChars, rsplitOnce_of_not_mem absent]
    exact length_copyName path short

end Apart

def ShortIds.copyPath (ids : ShortIds) (original : String) (theirs : Bytes) : String :=
  conflictCopyPath original (ids.shortId theirs)

theorem ShortIds.copyPath_injective (ids : ShortIds) {left right : String} {theirs theirs' : Bytes}
    (same : ids.copyPath left theirs = ids.copyPath right theirs') : left = right := by
  have chars := congrArg String.toList same
  simp only [copyPath, conflictCopyPath, String.toList_ofList] at chars
  exact String.ext (copyPathChars_injective ⟨ids.length theirs, ids.hex theirs⟩
    ⟨ids.length theirs', ids.hex theirs'⟩ chars)

theorem ShortIds.copyPath_ne (ids : ShortIds) (original : String) (theirs : Bytes) :
    ids.copyPath original theirs ≠ original := by
  intro same
  have chars := congrArg (fun path => path.toList.length) same
  simp only [copyPath, conflictCopyPath, String.toList_ofList, length_copyPathChars] at chars
  rw [length_append, ids.length] at chars
  omega

end Clepsydra.Sync
