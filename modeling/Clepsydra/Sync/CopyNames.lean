import Clepsydra.Bases.Index
import Clepsydra.Library.Utf8
import Clepsydra.Sync.ConflictCopy

/-!
Owns: how the name of a Conflict Copy is recognised.

Proves: a copy is beside its original, is no canonical page nor a journal, and tells its original.
-/

namespace Clepsydra.Sync

open Bases Library.Utf8 Vault List

/-! ### Names -/

def directory (path : String) : Option (List Char) := (rsplitOnce '/' path.toList).map Prod.fst

def fileName (path : String) : String :=
  match rsplitOnce '/' path.toList with
  | some (_, name) => String.ofList name
  | none => path

/-- `is_conflict_copy_name`: a segment `conflict` stands before one of seven hex characters. -/
def isConflictCopyName (fileName : String) : Bool :=
  let parts := fileName.toList.splitOn '.'
  (parts.zip parts.tail).any fun pair =>
    pair.1 == "conflict".toList && pair.2.length == 7 && pair.2.all isLowerHex

/-! ### Segments -/

theorem copyName_segments (name short : List Char) :
    ∃ before after, copyName name short = before ++ '.' :: ("conflict".toList ++ '.' :: (short ++ after))
      ∧ (after = [] ∨ ∃ ext, '.' ∉ ext ∧ before ≠ [] ∧ after = '.' :: ext) := by
  have isInfix : conflictInfix = '.' :: ("conflict".toList ++ ['.']) := by decide
  rcases rsplitOnce_cases '.' name with ⟨stem, ext, isName, absent⟩ | absent
  · rw [copyName, isName, rsplitOnce_append absent]
    by_cases hidden : stem = []
    · refine ⟨stem ++ '.' :: ext, [], ?_, .inl rfl⟩
      simp [hidden, isInfix]
    · refine ⟨stem, '.' :: ext, ?_, .inr ⟨ext, absent, hidden, rfl⟩⟩
      simp [hidden, isInfix]
  · refine ⟨name, [], ?_, .inl rfl⟩
    rw [copyName, rsplitOnce_of_not_mem absent]
    simp [isInfix]

theorem splitOn_segment (before after : List Char) :
    (before ++ '.' :: after).splitOn '.' = before.splitOn '.' ++ after.splitOn '.' :=
  splitOn_append_cons_self before after

theorem splitOn_of_not_mem {text : List Char} (absent : '.' ∉ text) : text.splitOn '.' = [text] :=
  splitOn_eq_singleton absent

variable {short : List Char}

theorem segments_copyName (sevenHex : SevenHex short) (name : List Char) :
    ∃ before after, (copyName name short).splitOn '.'
      = before ++ "conflict".toList :: short :: after := by
  have ⟨before, after, isCopy, shape⟩ := copyName_segments name short
  have noDot : '.' ∉ short := sevenHex.not_mem (by decide)
  have word : '.' ∉ "conflict".toList := by decide
  rw [isCopy, splitOn_segment, splitOn_segment, splitOn_of_not_mem word]
  rcases shape with rfl | ⟨ext, _, _, rfl⟩
  · rw [append_nil, splitOn_of_not_mem noDot]
    exact ⟨before.splitOn '.', [], rfl⟩
  · rw [splitOn_segment, splitOn_of_not_mem noDot]
    exact ⟨before.splitOn '.', ext.splitOn '.', rfl⟩

theorem mem_zip_tail {α : Type} (before : List α) (first second : α) (after : List α) :
    (first, second) ∈ (before ++ first :: second :: after).zip
      (before ++ first :: second :: after).tail := by
  induction before with
  | nil => simp
  | cons other rest ih =>
    cases isRest : rest ++ first :: second :: after with
    | nil => simp at isRest
    | cons next others =>
      rw [isRest] at ih
      rw [cons_append, isRest, tail_cons, zip_cons_cons]
      exact mem_cons_of_mem _ ih

variable (sevenHex : SevenHex short)

include sevenHex

theorem isConflictCopyName_copyName (name : List Char) :
    isConflictCopyName (String.ofList (copyName name short)) = true := by
  have ⟨before, after, segments⟩ := segments_copyName sevenHex name
  rw [isConflictCopyName, String.toList_ofList, segments]
  refine any_eq_true.2 ⟨_, mem_zip_tail before _ short after, ?_⟩
  simp [sevenHex.1, all_eq_true.2 sevenHex.2]

/-! ### Not a page's own name -/

theorem stem_of_copyName {before name : List Char} {stem : String}
    (stripped : stripEnd ".md" (String.ofList (before ++ copyName name short)) = some stem) :
    ∃ first, stem.toList = first ++ '.' :: short ∧ 10 ≤ first.length := by
  have joined := congrArg String.toList (append_of_stripEnd stripped)
  rw [String.toList_ofList, String.toList_append] at joined
  have ⟨front, after, isCopy, shape⟩ := copyName_segments name short
  rw [isCopy] at joined
  rcases shape with rfl | ⟨ext, noDot, some, rfl⟩
  · exfalso
    have shortEnds : short <:+ stem.toList ++ ".md".toList := by
      rw [← joined]
      exact ⟨before ++ (front ++ '.' :: ("conflict".toList ++ ['.'])), by simp⟩
    have mdEnds : ".md".toList <:+ short := suffix_of_suffix_length_le (suffix_append _ _) shortEnds
        (by rw [sevenHex.1]; decide)
    have member : 'm' ∈ short := mdEnds.subset (by decide)
    exact sevenHex.not_mem (by decide) member
  · have cut := rsplitOnce_append noDot (before ++ (front ++ '.' :: ("conflict".toList ++ '.' :: short)))
    have whole : before ++ (front ++ '.' :: ("conflict".toList ++ '.' :: short)) ++ '.' :: ext
        = stem.toList ++ '.' :: ['m', 'd'] := by
      rw [show '.' :: ['m', 'd'] = ".md".toList by decide, ← joined]
      simp
    rw [whole, rsplitOnce_append (by decide)] at cut
    have isStem := (Prod.mk.inj (Option.some.inj cut)).1
    refine ⟨before ++ (front ++ '.' :: "conflict".toList), ?_, ?_⟩
    · rw [isStem]
      simp
    · have positive := length_pos_iff.2 some
      have word : "conflict".toList.length = 8 := by decide
      simp only [length_append, length_cons, word]
      omega

theorem isCanonicalPageFilename_copyName (before name : List Char) :
    isCanonicalPageFilename (String.ofList (before ++ copyName name short)) = false := by
  unfold isCanonicalPageFilename
  cases stripped : stripEnd ".md" (String.ofList (before ++ copyName name short)) with
  | none => rfl
  | some stem =>
    have ⟨first, isStem, _⟩ := stem_of_copyName sevenHex stripped
    have last : (stem.toList.splitOn '.').getLast? = some short := by
      rw [isStem, splitOn_segment, splitOn_of_not_mem (sevenHex.not_mem (by decide))]
      exact getLast?_concat
    dsimp only
    rw [last, Option.getD_some, sevenHex.1]
    simp

/-! ### Not a journal -/

theorem copyName_of_stripStart {before name : List Char} (absent : '/' ∉ name) {folder : List Char}
    {filename : String} (stripped : stripStart (String.ofList (folder ++ ['/']))
      (String.ofList (before ++ copyName name short)) = some filename) :
    ∃ middle, filename = String.ofList (middle ++ copyName name short) := by
  have joined := congrArg String.toList (append_of_stripStart stripped)
  rw [String.toList_ofList, String.toList_append, String.toList_ofList] at joined
  rcases append_eq_append_iff.1 joined with ⟨middle, isFolder, isCopy⟩ | ⟨middle, _, isName⟩
  · rcases eq_nil_or_concat middle with rfl | ⟨others, last, rfl⟩
    · refine ⟨[], ?_⟩
      rw [nil_append, isCopy, nil_append, String.ofList_toList]
    · exfalso
      rw [concat_eq_append, ← append_assoc] at isFolder
      have isSlash := (append_inj' isFolder rfl).2
      have member : '/' ∈ copyName name short := by
        rw [isCopy, concat_eq_append, ← isSlash]
        simp
      exact slash_not_mem_copyName sevenHex absent member
  · refine ⟨middle, ?_⟩
    rw [← isName, String.ofList_toList]

theorem extractJournalDate_copyName {before name : List Char} (absent : '/' ∉ name) :
    extractJournalDate (String.ofList (before ++ copyName name short)) = none := by
  have none_of : ∀ {filename middle}, filename = String.ofList (middle ++ copyName name short) →
      ((stripEnd ".md" filename).getD filename).utf8ByteSize ≠ 10 := by
    intro filename middle isName
    have long : ∀ text : String, 10 < text.toList.length → text.utf8ByteSize ≠ 10 := by
      intro text isLong
      have bytes := utf8ByteSize_ofList text.toList
      rw [String.ofList_toList] at bytes
      have := length_le_byteLen text.toList
      omega
    apply long
    cases stripped : stripEnd ".md" filename with
    | none =>
      rw [Option.getD_none, isName, String.toList_ofList, length_append, length_copyName,
        length_append, sevenHex.1]
      have word : conflictInfix.length = 10 := by decide
      omega
    | some stem =>
      rw [isName] at stripped
      have ⟨first, isStem, isLong⟩ := stem_of_copyName sevenHex stripped
      rw [Option.getD_some, isStem, length_append, length_cons]
      omega
  unfold extractJournalDate
  cases found : (stripStart "journals/" (String.ofList (before ++ copyName name short))).or
      (stripStart "ai-journals/" (String.ofList (before ++ copyName name short))) with
  | none => rfl
  | some filename =>
    have ends : ∃ middle, filename = String.ofList (middle ++ copyName name short) := by
      rcases Option.or_eq_some_iff.1 found with inJournals | ⟨_, inAiJournals⟩
      · exact @copyName_of_stripStart _ sevenHex _ _ absent "journals".toList _ inJournals
      · exact @copyName_of_stripStart _ sevenHex _ _ absent "ai-journals".toList _ inAiJournals
    have ⟨middle, isName⟩ := ends
    have noCandidate := isCanonicalPageFilename_copyName sevenHex middle name
    rw [← isName] at noCandidate
    simp [none_of isName, noCandidate]

omit sevenHex

/-! ### Copies -/

theorem copyPath_cases (path : String) (short : String) :
    (∃ dir name, '/' ∉ name ∧ path.toList = dir ++ '/' :: name
        ∧ (conflictCopyPath path short).toList = dir ++ '/' :: copyName name short.toList)
      ∨ ('/' ∉ path.toList
        ∧ (conflictCopyPath path short).toList = copyName path.toList short.toList) := by
  rw [conflictCopyPath, String.toList_ofList, copyPathChars]
  rcases rsplitOnce_cases '/' path.toList with ⟨dir, name, isPath, absent⟩ | absent
  · refine .inl ⟨dir, name, absent, isPath, ?_⟩
    rw [isPath, rsplitOnce_append absent]
  · refine .inr ⟨absent, ?_⟩
    rw [rsplitOnce_of_not_mem absent]

theorem short_of_copyName {name first second : List Char}
    (same : copyName name first = copyName name second) : first = second := by
  unfold copyName at same
  split at same
  · split_ifs at same
    · exact append_cancel_left (append_cancel_left same)
    · exact append_cancel_left (append_cancel_left (append_cancel_right same))
  · exact append_cancel_left (append_cancel_left same)

theorem short_of_copyPathChars {path first second : List Char}
    (same : copyPathChars path first = copyPathChars path second) : first = second := by
  unfold copyPathChars at same
  split at same
  · exact short_of_copyName (List.cons.inj (append_cancel_left same)).2
  · exact short_of_copyName same

/-- **The names of Conflict Copies**: beside the original, recognised, and of one original. -/
theorem conflictCopyPath_sound {short : String} (sevenHex : SevenHex short.toList) :
    (∀ path, directory (conflictCopyPath path short) = directory path
        ∧ isConflictCopyName (fileName (conflictCopyPath path short)) = true
        ∧ isCanonicalPageFilename (fileName (conflictCopyPath path short)) = false
        ∧ extractJournalDate (conflictCopyPath path short) = none)
      ∧ ∀ path other otherShort, SevenHex otherShort.toList →
          conflictCopyPath path short = conflictCopyPath other otherShort →
          path = other ∧ short = otherShort := by
  constructor
  · intro path
    have own : ∀ name, isCanonicalPageFilename (String.ofList (copyName name short.toList)) = false :=
      isCanonicalPageFilename_copyName sevenHex []
    rcases copyPath_cases path short with ⟨dir, name, absent, isPath, isCopy⟩ | ⟨absent, isCopy⟩
    · have slashless := slash_not_mem_copyName sevenHex absent
      have isName : fileName (conflictCopyPath path short)
          = String.ofList (copyName name short.toList) := by
        rw [fileName, isCopy, rsplitOnce_append slashless]
      refine ⟨?_, ?_, ?_, ?_⟩
      · rw [directory, directory, isCopy, isPath, rsplitOnce_append slashless,
          rsplitOnce_append absent]
        rfl
      · rw [isName]
        exact isConflictCopyName_copyName sevenHex name
      · rw [isName]
        exact own name
      · rw [← String.ofList_toList (s := conflictCopyPath path short), isCopy, ← singleton_append,
          ← append_assoc]
        exact extractJournalDate_copyName sevenHex absent
    · have slashless := slash_not_mem_copyName sevenHex absent
      have isPath : conflictCopyPath path short
          = String.ofList (copyName path.toList short.toList) := by
        rw [← isCopy, String.ofList_toList]
      have isName : fileName (conflictCopyPath path short)
          = String.ofList (copyName path.toList short.toList) := by
        rw [fileName, isCopy, rsplitOnce_of_not_mem slashless]
        exact isPath
      refine ⟨?_, ?_, ?_, ?_⟩
      · rw [directory, directory, isCopy, rsplitOnce_of_not_mem slashless,
          rsplitOnce_of_not_mem absent]
      · rw [isName]
        exact isConflictCopyName_copyName sevenHex _
      · rw [isName]
        exact own _
      · rw [isPath]
        exact @extractJournalDate_copyName _ sevenHex [] _ absent
  · intro path other otherShort otherHex same
    have chars := congrArg String.toList same
    simp only [conflictCopyPath, String.toList_ofList] at chars
    obtain rfl : path = other := String.ext (copyPathChars_injective sevenHex otherHex chars)
    exact ⟨rfl, String.ext (short_of_copyPathChars chars)⟩

/-- The copy of a journal page. -/
theorem conflictCopyPath_sound_of_journal :
    directory (conflictCopyPath "journals/2026-02-17.md" "e3b98a4")
        = directory "journals/2026-02-17.md"
      ∧ isConflictCopyName (fileName (conflictCopyPath "journals/2026-02-17.md" "e3b98a4")) = true
      ∧ isCanonicalPageFilename (fileName (conflictCopyPath "journals/2026-02-17.md" "e3b98a4"))
          = false
      ∧ extractJournalDate (conflictCopyPath "journals/2026-02-17.md" "e3b98a4") = none :=
  (@conflictCopyPath_sound "e3b98a4" ⟨by decide, all_eq_true.1 (by decide)⟩).1
    "journals/2026-02-17.md"

end Clepsydra.Sync
