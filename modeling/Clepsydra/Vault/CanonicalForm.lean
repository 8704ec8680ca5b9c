import Clepsydra.Library.Words
import Clepsydra.Vault.Canonical

/-!
Owns: what a canonical name is meant to be, and the laws of Unicode's tables it rests on.

Proves: exactly for which texts a canonical name is in normal form and canonical again.
-/

namespace Clepsydra.Vault

open Library List String
open Library.Trim (Tight)
open Library.Words

/-! ### Unicode -/

def Unicode.Lowered (unicode : Unicode) (character : Char) : Prop :=
  unicode.toLowercase (String.singleton character) = String.singleton character

/-- NFC and lowercasing are idempotent and keep words, and NFC composes nothing across a space or
into `.md`. -/
structure Unicode.Lawful (unicode : Unicode) : Prop where
  nfc_empty : unicode.nfc "" = ""
  nfc_nfc : ∀ text, unicode.nfc (unicode.nfc text) = unicode.nfc text
  nfc_space : ∀ before after,
    unicode.nfc (before ++ " " ++ after) = unicode.nfc before ++ " " ++ unicode.nfc after
  nfc_word : ∀ word : String, IsWord isWhitespace word.toList →
    IsWord isWhitespace (unicode.nfc word).toList
  nfc_md : ∀ text, unicode.nfc (text ++ ".md") = unicode.nfc text ++ ".md"
  md_of_nfc : ∀ text rest, unicode.nfc text = rest ++ ".md" → ∃ before, text = before ++ ".md"
  lowered_space : unicode.Lowered ' '
  lowered_toLowercase : ∀ text, ∀ character ∈ (unicode.toLowercase text).toList,
    unicode.Lowered character
  toLowercase_of_lowered : ∀ text : String, (∀ character ∈ text.toList, unicode.Lowered character) →
    unicode.toLowercase text = text
  lowered_nfc : ∀ text : String, (∀ character ∈ text.toList, unicode.Lowered character) →
    ∀ character ∈ (unicode.nfc text).toList, unicode.Lowered character

/-! ### Collapsed whitespace -/

theorem collapseWhitespace_eq (previous : Bool) (text : List Char) :
    collapseWhitespace previous text = collapse isWhitespace ' ' previous text := by
  induction text generalizing previous with
  | nil => rfl
  | cons character rest ih =>
    rw [collapseWhitespace, collapse, ih, ih]

theorem trim_collapseWhitespace (text : List Char) :
    Trim.trim isWhitespace (collapseWhitespace false text)
      = spaced ' ' (words isWhitespace text) := by
  rw [collapseWhitespace_eq, trim_collapse (by decide)]

/-! ### Names and words -/

def mdEnding : List Char := ['.', 'm', 'd']

/-- A text without one `.md` at its end. -/
def withoutMd (text : List Char) : List Char :=
  if mdEnding.isSuffixOf text then text.take (text.length - 3) else text

def loweredWords (unicode : Unicode) (text : String) : List (List Char) :=
  words isWhitespace (unicode.toLowercase (unicode.nfc text)).toList

theorem withoutMd_append (text : List Char) : withoutMd (text ++ mdEnding) = text := by
  unfold withoutMd
  rw [if_pos (isSuffixOf_iff_suffix.2 (suffix_append text mdEnding)), List.length_append]
  exact take_left

theorem withoutMd_of_not_suffix {text : List Char} (other : ¬mdEnding <:+ text) :
    withoutMd text = text :=
  if_neg fun ends => other (isSuffixOf_iff_suffix.1 ends)

theorem solid_mdEnding : Solid isWhitespace mdEnding := by
  unfold Solid mdEnding
  simp [isWhitespace]

theorem toList_stripEnd_md (text : String) :
    ((stripEnd ".md" text).getD text).toList = withoutMd text.toList := by
  have ending : ".md".toList = mdEnding := rfl
  unfold stripEnd withoutMd
  rw [ending]
  split_ifs with ends
  · rw [Option.getD_some, toList_ofList]
    rfl
  · rfl

theorem toList_canonicalName (unicode : Unicode) (text : String) :
    (canonicalName unicode text).toList = withoutMd (spaced ' ' (loweredWords unicode text)) := by
  have trimmed : (trim (String.ofList (collapseWhitespace false
      (unicode.toLowercase (unicode.nfc text)).toList))).toList
      = spaced ' ' (loweredWords unicode text) := by
    rw [toList_trim, toList_ofList, trim_collapseWhitespace]
    rfl
  unfold canonicalName
  rw [toList_stripEnd_md, trimmed]

/-! ### Names that are named again -/

section Again

variable {unicode : Unicode}

def Unicode.nfcChars (unicode : Unicode) (text : List Char) : List Char :=
  (unicode.nfc (String.ofList text)).toList

theorem Unicode.Lawful.nfcChars_append_md (lawful : unicode.Lawful) (text : List Char) :
    unicode.nfcChars (text ++ mdEnding) = unicode.nfcChars text ++ mdEnding := by
  unfold Unicode.nfcChars
  have joined : String.ofList (text ++ mdEnding) = String.ofList text ++ ".md" := by
    rw [ofList_append]
    rfl
  rw [joined, lawful.nfc_md, toList_append]
  rfl

theorem Unicode.Lawful.md_suffix_of_nfcChars (lawful : unicode.Lawful) {text : List Char}
    (ends : mdEnding <:+ unicode.nfcChars text) : mdEnding <:+ text := by
  have ⟨rest, joined⟩ := ends
  have composed : unicode.nfc (String.ofList text) = String.ofList rest ++ ".md" := by
    apply toList_inj.1
    rw [toList_append, toList_ofList]
    exact joined.symm
  have ⟨before, split⟩ := lawful.md_of_nfc _ _ composed
  refine ⟨before.toList, ?_⟩
  have characters := congrArg String.toList split
  rw [toList_append, toList_ofList] at characters
  exact characters.symm

theorem Unicode.Lawful.nfcChars_spaced (lawful : unicode.Lawful) : ∀ texts : List (List Char),
      unicode.nfcChars (spaced ' ' texts) = spaced ' ' (texts.map unicode.nfcChars)
  | [] => congrArg String.toList lawful.nfc_empty
  | [word] => by simp
  | first :: second :: rest => by
    have joined : String.ofList (first ++ ' ' :: spaced ' ' (second :: rest))
        = String.ofList first ++ " " ++ String.ofList (spaced ' ' (second :: rest)) := by
      apply toList_inj.1
      simp
    have later : (unicode.nfc (String.ofList (spaced ' ' (second :: rest)))).toList
        = spaced ' ' ((second :: rest).map unicode.nfcChars) :=
      lawful.nfcChars_spaced (second :: rest)
    rw [spaced_cons_cons, Unicode.nfcChars, joined, lawful.nfc_space, toList_append,
      toList_append, later, List.append_assoc]
    rfl

theorem Unicode.Lawful.loweredWords_spaced (lawful : unicode.Lawful) {texts : List (List Char)}
    (areWords : ∀ word ∈ texts, IsWord isWhitespace word)
    (lowered : ∀ word ∈ texts, ∀ character ∈ word, unicode.Lowered character) :
    loweredWords unicode (String.ofList (spaced ' ' texts)) = texts.map unicode.nfcChars := by
  have loweredText : ∀ character ∈ (String.ofList (spaced ' ' texts)).toList,
      unicode.Lowered character := by
    rw [toList_ofList]
    intro character member
    rcases mem_spaced member with isSpace | ⟨word, inTexts, inWord⟩
    · rw [isSpace]
      exact lawful.lowered_space
    · exact lowered word inTexts character inWord
  unfold loweredWords
  rw [lawful.toLowercase_of_lowered _ (lawful.lowered_nfc _ loweredText)]
  have composed := lawful.nfcChars_spaced texts
  unfold Unicode.nfcChars at composed
  rw [composed]
  apply words_spaced (by decide)
  intro word member
  have ⟨before, inTexts, isWord⟩ := mem_map.1 member
  rw [← isWord]
  apply lawful.nfc_word
  rw [toList_ofList]
  exact areWords before inTexts

/-- Lowered words are their own canonical name when each is NFC and they do not end in `.md`. -/
theorem Unicode.Lawful.canonicalName_spaced_iff (lawful : unicode.Lawful)
    {texts : List (List Char)} (areWords : ∀ word ∈ texts, IsWord isWhitespace word)
    (lowered : ∀ word ∈ texts, ∀ character ∈ word, unicode.Lowered character) :
    canonicalName unicode (String.ofList (spaced ' ' texts)) = String.ofList (spaced ' ' texts) ↔
      (∀ word ∈ texts, unicode.nfcChars word = word) ∧ ¬mdEnding <:+ spaced ' ' texts := by
  rw [← toList_inj, toList_canonicalName, toList_ofList,
    lawful.loweredWords_spaced areWords lowered, ← lawful.nfcChars_spaced]
  by_cases ends : mdEnding <:+ spaced ' ' texts
  · -- composing what is left once more would have to bring the ending back
    refine iff_of_false ?_ fun both => both.2 ends
    have ⟨before, split⟩ := ends
    rw [← split, lawful.nfcChars_append_md, withoutMd_append]
    intro same
    have twice := congrArg unicode.nfcChars same
    rw [lawful.nfcChars_append_md] at twice
    unfold Unicode.nfcChars at twice
    rw [ofList_toList, lawful.nfc_nfc] at twice
    have lengths := congrArg List.length twice
    rw [List.length_append] at lengths
    exact absurd lengths (by simp [mdEnding])
  · rw [withoutMd_of_not_suffix fun composed => ends (lawful.md_suffix_of_nfcChars composed),
      lawful.nfcChars_spaced]
    constructor
    · intro same
      refine ⟨?_, ends⟩
      have composedWords : ∀ word ∈ texts.map unicode.nfcChars, IsWord isWhitespace word := by
        intro word member
        have ⟨before, inTexts, isWord⟩ := mem_map.1 member
        rw [← isWord]
        apply lawful.nfc_word
        rw [toList_ofList]
        exact areWords before inTexts
      have read := congrArg (words isWhitespace) same
      rw [words_spaced (by decide) composedWords, words_spaced (by decide) areWords] at read
      exact map_inj_left.1 (read.trans (List.map_id texts).symm)
    · intro both
      rw [map_congr_left both.1, map_id']

end Again

/-! ### Normal form -/

structure NormalForm (text : String) : Prop where
  tight : Tight isWhitespace text.toList
  single : text.toList.IsChain fun first second =>
    isWhitespace first = false ∨ isWhitespace second = false

/-- Each lowercased word is NFC; the last does not end in `.md` once more. -/
structure KeepsForm (unicode : Unicode) (text : String) : Prop where
  composed : ∀ word ∈ loweredWords unicode text, unicode.nfcChars word = word
  bare : ∀ before, loweredWords unicode text = before ++ [mdEnding] → before = []
  once : ∀ before stem, loweredWords unicode text ≠ before ++ [stem ++ mdEnding ++ mdEnding]

theorem normalForm_spaced {texts : List (List Char)}
    (areWords : ∀ word ∈ texts, IsWord isWhitespace word) :
    NormalForm (String.ofList (spaced ' ' texts)) := by
  constructor
  · rw [toList_ofList]
    exact tight_spaced areWords
  · rw [toList_ofList]
    exact single_spaced areWords

section Names

variable {unicode : Unicode} {text : String}

theorem Unicode.Lawful.lowered_of_loweredWords (lawful : unicode.Lawful) :
    ∀ word ∈ loweredWords unicode text, ∀ character ∈ word, unicode.Lowered character :=
  fun _ member _ inWord => lawful.lowered_toLowercase _ _ (mem_of_mem_words member inWord)

theorem Unicode.Lawful.keepsForm_iff_of_plain (lawful : unicode.Lawful)
    (plain : ¬mdEnding <:+ spaced ' ' (loweredWords unicode text)) :
    (NormalForm (canonicalName unicode text)
        ∧ canonicalName unicode (canonicalName unicode text) = canonicalName unicode text)
      ↔ KeepsForm unicode text := by
  have areWords : ∀ word ∈ loweredWords unicode text, IsWord isWhitespace word :=
    fun _ member => isWord_of_mem member
  have isName : canonicalName unicode text = String.ofList (spaced ' ' (loweredWords unicode text)) := by
    apply toList_inj.1
    rw [toList_canonicalName, withoutMd_of_not_suffix plain, toList_ofList]
  have noEnding : ∀ before stem, loweredWords unicode text ≠ before ++ [stem ++ mdEnding] := by
    intro before stem split
    apply plain
    rw [split, suffix_spaced_iff (by decide) solid_mdEnding]
    exact suffix_append stem mdEnding
  rw [isName, lawful.canonicalName_spaced_iff areWords lawful.lowered_of_loweredWords]
  constructor
  · intro both
    exact ⟨both.2.1, fun before split => absurd split (noEnding before []),
      fun before stem => noEnding before (stem ++ mdEnding)⟩
  · exact fun keepsForm => ⟨normalForm_spaced areWords, keepsForm.composed, plain⟩

theorem canonicalName_of_md {before : List (List Char)} {stem : List Char}
    (split : loweredWords unicode text = before ++ [stem ++ mdEnding]) :
    canonicalName unicode text = String.ofList (spaced ' ' (before ++ [stem])) := by
  apply toList_inj.1
  rw [toList_canonicalName, split, spaced_append_last, withoutMd_append, toList_ofList]

theorem not_normalForm_of_bare {before : List (List Char)} (others : before ≠ [])
    (split : loweredWords unicode text = before ++ [mdEnding]) :
    ¬NormalForm (canonicalName unicode text) := by
  intro normal
  have isName : canonicalName unicode text = String.ofList (spaced ' ' (before ++ [[]])) :=
    canonicalName_of_md split
  have tight := normal.tight.2
  rw [isName, toList_ofList, spaced_append others (cons_ne_nil _ _)] at tight
  have notBlank := tight ' ' (by simp)
  exact absurd notBlank (by decide)

theorem Unicode.Lawful.keepsForm_of_alone (lawful : unicode.Lawful)
    (split : loweredWords unicode text = [mdEnding]) :
    (NormalForm (canonicalName unicode text)
        ∧ canonicalName unicode (canonicalName unicode text) = canonicalName unicode text)
      ∧ KeepsForm unicode text := by
  have isName : canonicalName unicode text = String.ofList (spaced ' ' []) := by
    apply toList_inj.1
    rw [toList_canonicalName, split, spaced_singleton, toList_ofList]
    exact withoutMd_append []
  have again := lawful.canonicalName_spaced_iff (forall_mem_nil _) (forall_mem_nil _)
  rw [isName]
  refine ⟨⟨normalForm_spaced (forall_mem_nil _), again.2 ⟨forall_mem_nil _, by decide⟩⟩, ?_, ?_, ?_⟩
  · intro word member
    rw [split] at member
    have composed : unicode.nfcChars [] = [] := lawful.nfcChars_spaced []
    have whole := lawful.nfcChars_append_md []
    rw [composed] at whole
    rw [mem_singleton.1 member]
    exact whole
  · intro before same
    rw [split] at same
    simpa using congrArg List.length same
  · intro before stem same
    rw [split] at same
    have lengths := congrArg (fun words => words.flatten.length) same
    simp only [mdEnding, flatten_append, flatten_cons, flatten_nil,
      List.length_append, length_cons, length_nil] at lengths
    omega

theorem Unicode.Lawful.keepsForm_iff_of_stem (lawful : unicode.Lawful) {before : List (List Char)}
    {stem : List Char} (some : stem ≠ [])
    (split : loweredWords unicode text = before ++ [stem ++ mdEnding]) :
    (NormalForm (canonicalName unicode text)
        ∧ canonicalName unicode (canonicalName unicode text) = canonicalName unicode text)
      ↔ KeepsForm unicode text := by
  have isLast : stem ++ mdEnding ∈ loweredWords unicode text :=
    split ▸ mem_append_right _ mem_cons_self
  have inBefore : ∀ word ∈ before, word ∈ loweredWords unicode text :=
    fun _ member => split ▸ mem_append_left _ member
  have nameWords : ∀ word ∈ before ++ [stem], IsWord isWhitespace word := by
    intro word member
    rcases mem_append.1 member with earlier | isStem
    · exact isWord_of_mem (inBefore word earlier)
    · rw [mem_singleton.1 isStem]
      exact ⟨some, fun character inStem =>
        (isWord_of_mem isLast).solid character (mem_append_left _ inStem)⟩
  have nameLowered : ∀ word ∈ before ++ [stem], ∀ character ∈ word, unicode.Lowered character := by
    intro word member character inWord
    rcases mem_append.1 member with earlier | isStem
    · exact lawful.lowered_of_loweredWords word (inBefore word earlier) character inWord
    · rw [mem_singleton.1 isStem] at inWord
      exact lawful.lowered_of_loweredWords _ isLast character (mem_append_left _ inWord)
  rw [canonicalName_of_md split, lawful.canonicalName_spaced_iff nameWords nameLowered,
    suffix_spaced_iff (by decide) solid_mdEnding]
  constructor
  · intro both
    refine ⟨?_, ?_, ?_⟩
    · intro word member
      rw [split] at member
      rcases mem_append.1 member with earlier | isWord
      · exact both.2.1 word (mem_append_left _ earlier)
      · rw [mem_singleton.1 isWord, lawful.nfcChars_append_md,
          both.2.1 stem (mem_append_right _ mem_cons_self)]
    · intro others same
      rw [split] at same
      have isWord := List.singleton_inj.1 (append_inj' same rfl).2
      exact absurd (append_left_eq_self.1 isWord) some
    · intro others shorter same
      rw [split] at same
      have isWord := List.singleton_inj.1 (append_inj' same rfl).2
      apply both.2.2
      rw [append_cancel_right isWord]
      exact suffix_append shorter mdEnding
  · intro keepsForm
    refine ⟨normalForm_spaced nameWords, ?_, ?_⟩
    · intro word member
      rcases mem_append.1 member with earlier | isStem
      · exact keepsForm.composed word (inBefore word earlier)
      · have whole := keepsForm.composed _ isLast
        rw [lawful.nfcChars_append_md] at whole
        rw [mem_singleton.1 isStem]
        exact append_cancel_right whole
    · intro again
      have ⟨shorter, same⟩ := again
      exact keepsForm.once before shorter (by rw [split, same])

/-- **Exactly which canonical names are normal forms.** -/
theorem canonical_names_normal_iff (lawful : unicode.Lawful) (text : String) :
    (NormalForm (canonicalName unicode text)
        ∧ canonicalName unicode (canonicalName unicode text) = canonicalName unicode text)
      ↔ KeepsForm unicode text := by
  by_cases ends : mdEnding <:+ spaced ' ' (loweredWords unicode text)
  · rcases eq_nil_or_concat (loweredWords unicode text) with none | ⟨before, last, split⟩
    · rw [none] at ends
      exact absurd ends (by decide)
    · rw [concat_eq_append] at split
      rw [split, suffix_spaced_iff (by decide) solid_mdEnding] at ends
      have ⟨stem, isLast⟩ := ends
      rw [← isLast] at split
      by_cases noStem : stem = []
      · rw [noStem, nil_append] at split
        by_cases alone : before = []
        · rw [alone, nil_append] at split
          have holds := lawful.keepsForm_of_alone split
          exact iff_of_true holds.1 holds.2
        · exact iff_of_false (fun both => not_normalForm_of_bare alone split both.1)
            fun keepsForm => alone (keepsForm.bare before split)
      · exact lawful.keepsForm_iff_of_stem noStem split
  · exact lawful.keepsForm_iff_of_plain ends

end Names

/-! ### Lowercase ASCII -/

def asciiTables : Unicode := ⟨id, id⟩

theorem lawful_asciiTables : asciiTables.Lawful where
  nfc_empty := rfl
  nfc_nfc _ := rfl
  nfc_space _ _ := rfl
  nfc_word _ isWord := isWord
  nfc_md _ := rfl
  md_of_nfc _ rest ends := ⟨rest, ends⟩
  lowered_space := rfl
  lowered_toLowercase _ _ _ := rfl
  toLowercase_of_lowered _ _ := rfl
  lowered_nfc _ _ _ _ := rfl

theorem canonical_names_normal_iff_readme : (NormalForm (canonicalName asciiTables "readme.md")
        ∧ canonicalName asciiTables (canonicalName asciiTables "readme.md")
            = canonicalName asciiTables "readme.md")
      ↔ KeepsForm asciiTables "readme.md" :=
  canonical_names_normal_iff lawful_asciiTables "readme.md"

/-- A space is left at the end of a name, and a second ending is taken off the next time. -/
theorem canonical_names_change : asciiTables.Lawful ∧ canonicalName asciiTables "note .md" = "note "
      ∧ ¬NormalForm (canonicalName asciiTables "note .md")
      ∧ canonicalName asciiTables "a.md.md" = "a.md"
      ∧ canonicalName asciiTables (canonicalName asciiTables "a.md.md") = "a" := by
  refine ⟨lawful_asciiTables, by decide, ?_, by decide, by decide⟩
  intro normal
  have name : canonicalName asciiTables "note .md" = "note " := by decide
  have tight := normal.tight
  rw [name] at tight
  exact absurd tight (by decide)

end Clepsydra.Vault
