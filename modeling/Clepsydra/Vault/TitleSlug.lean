import Clepsydra.Library.Utf8
import Clepsydra.Library.Words
import Clepsydra.Vault.Rubbish

/-!
Owns: the file name made from a title, and the title read back from a file name.

Proves: exactly for which titles the file name reads back as what was kept of the title.
-/

namespace Clepsydra.Vault

open Library Library.Utf8 Library.Words List String
open Option (some.inj)

/-! ### Replacing in texts -/

/-- `str::replace` of one character. -/
def replaceChar (character : Char) (replacement text : List Char) : List Char :=
  text.flatMap fun other => if other = character then replacement else [other]

/-- `str::replace` of a text, from the left; so many characters belong to the last match. -/
def replaceFrom (pattern replacement : List Char) : Nat → List Char → List Char
  | _, [] => []
  | skipped + 1, _ :: rest => replaceFrom pattern replacement skipped rest
  | 0, character :: rest =>
    if pattern.isPrefixOf (character :: rest) then
      replacement ++ replaceFrom pattern replacement (pattern.length - 1) rest
    else character :: replaceFrom pattern replacement 0 rest

def replaceText (pattern replacement text : List Char) : List Char :=
  replaceFrom pattern replacement 0 text

/-! ### The file name of a title -/

variable {text : List Char} {maxBytes : Nat}

/-- `is_illegal_filename_char`. -/
def isIllegalFilenameChar (character : Char) : Bool :=
  ['<', '>', ':', '"', '\\', '|', '?', '*'].contains character || isControl character

def isDash (character : Char) : Bool := character == '-'

def legalChar (character : Char) : Char :=
  if isIllegalFilenameChar character then '-' else character

/-- `%` first, then `/`. -/
def percentEncode (text : List Char) : List Char :=
  replaceChar '/' ['%', '2', 'F'] (replaceChar '%' ['%', '2', '5'] text)

def cleaned (text : List Char) : List Char :=
  Trim.trim isDash (collapse isDash '-' false (text.map legalChar))

def floorBoundary (text : List Char) : Nat → Nat
  | 0 => 0
  | bytes + 1 => if (splitAtByte text (bytes + 1)).isSome then bytes + 1 else floorBoundary text bytes

/-- `truncate_safe`, which fails where `&s[..end]` would. -/
def truncateSafe (text : List Char) (maxBytes : Nat) : Option (List Char) :=
  if byteLen text ≤ maxBytes then some text
  else
    let boundary := floorBoundary text maxBytes
    let bytes := asBytes text
    let cut :=
      if 1 ≤ boundary ∧ bytes[boundary - 1]? = some (asciiByte '%') then boundary - 1
      else if 2 ≤ boundary ∧ bytes[boundary - 2]? = some (asciiByte '%') then boundary - 2
      else boundary
    (splitAtByte text cut).map Prod.fst

def maxSlugBytes : Nat := 200

def slugOf (nfc : String → String) (title : String) : List Char :=
  cleaned (percentEncode (nfc title).toList)

def pageFile (stem : List Char) (noSeparator : '/' ∉ stem) : VaultPath where
  components := [String.ofList (stem ++ ['.', 'm', 'd'])]
  nonempty := cons_ne_nil _ _
  sound := by
    intro component member
    have length : component.toList.length = stem.length + 3 := by
      rw [mem_singleton.1 member, toList_ofList, List.length_append]
      rfl
    refine ⟨?_, ?_, ?_, ?_⟩
    · intro isEmpty
      rw [isEmpty] at length
      simp at length
    · intro isCurrent
      rw [isCurrent] at length
      simp at length
    · intro isParent
      rw [isParent] at length
      simp at length
    · rw [mem_singleton.1 member, toList_ofList]
      simp [noSeparator]

theorem prefix_of_truncateSafe {cut : List Char} (truncated : truncateSafe text maxBytes = some cut) :
    cut <+: text := by
  unfold truncateSafe at truncated
  split_ifs at truncated
  · exact some.inj truncated ▸ prefix_rfl
  · have ⟨parts, split, isFirst⟩ := Option.map_eq_some_iff.1 truncated
    have ⟨joined, _⟩ := splitAtByte_eq_some_iff.1 split
    rw [← isFirst, joined]
    exact prefix_append _ _

def encodeChar (character : Char) : List Char :=
  if character = '%' then ['%', '2', '5']
  else if character = '/' then ['%', '2', 'F']
  else [character]

theorem encodeChar_of_plain {character : Char} (notPercent : character ≠ '%')
    (notSlash : character ≠ '/') : encodeChar character = [character] := by
  rw [encodeChar, if_neg notPercent, if_neg notSlash]

theorem percentEncode_eq (text : List Char) : percentEncode text = text.flatMap encodeChar := by
  unfold percentEncode replaceChar
  rw [flatMap_assoc]
  congr 1
  funext character
  unfold encodeChar
  split_ifs with isPercent isSlash
  · rfl
  · rw [isSlash]
    rfl
  · simp [isSlash]

theorem isWord_encodeChar {character : Char} (notDash : isDash character = false) :
    IsWord isDash (encodeChar character) := by
  unfold encodeChar
  split_ifs
  · refine ⟨cons_ne_nil _ _, ?_⟩
    simp [Solid, isDash]
  · refine ⟨cons_ne_nil _ _, ?_⟩
    simp [Solid, isDash]
  · exact ⟨cons_ne_nil _ _, forall_mem_singleton.2 notDash⟩

theorem encodeChar_dash {character : Char} (dash : isDash character = true) :
    encodeChar character = [character] := by
  rw [isDash, beq_iff_eq] at dash
  rw [dash]
  rfl

theorem cleaned_eq (text : List Char) :
    cleaned text = spaced '-' (words isDash (text.map legalChar)) :=
  trim_collapse (by decide) _

theorem cleaned_percentEncode (text : List Char) :
    cleaned (percentEncode text) = percentEncode (cleaned text) := by
  have commutes : (percentEncode text).map legalChar = (text.map legalChar).flatMap encodeChar := by
    rw [percentEncode_eq, map_flatMap, flatMap_map]
    congr 1
    funext character
    unfold encodeChar
    by_cases isPercent : character = '%'
    · rw [isPercent]
      decide
    · by_cases isSlash : character = '/'
      · rw [isSlash]
        decide
      · have stays : legalChar character ≠ '%' ∧ legalChar character ≠ '/' := by
          unfold legalChar
          split_ifs
          · exact ⟨by decide, by decide⟩
          · exact ⟨isPercent, isSlash⟩
        rw [if_neg isPercent, if_neg isSlash, map_singleton, if_neg stays.1, if_neg stays.2]
  rw [cleaned_eq, cleaned_eq, commutes, percentEncode_eq,
    words_flatMap (fun _ => encodeChar_dash) (fun _ => isWord_encodeChar),
    spaced_flatMap (encodeChar_dash (by decide))]

def sanitised (nfc : String → String) (title : String) : List Char := cleaned (nfc title).toList

theorem slugOf_eq (nfc : String → String) (title : String) :
    slugOf nfc title = percentEncode (sanitised nfc title) :=
  cleaned_percentEncode _

theorem noSeparator_percentEncode (text : List Char) : '/' ∉ percentEncode text := by
  rw [percentEncode_eq]
  intro member
  have ⟨character, _, inImage⟩ := mem_flatMap.1 member
  unfold encodeChar at inImage
  split_ifs at inImage with isPercent isSlash
  · exact absurd inImage (by decide)
  · exact absurd inImage (by decide)
  · exact isSlash (mem_singleton.1 inImage).symm

theorem noSeparator_slugOf (nfc : String → String) (title : String) : '/' ∉ slugOf nfc title := by
  rw [slugOf_eq]
  exact noSeparator_percentEncode _

/-- `VaultPath::from_title`. -/
def fromTitle (nfc : String → String) (title : String) : Option VaultPath :=
  match truncated : truncateSafe (slugOf nfc title) maxSlugBytes with
  | none => none
  | some stem =>
    some (pageFile stem fun inStem =>
      noSeparator_slugOf nfc title ((prefix_of_truncateSafe truncated).subset inStem))

/-! ### The title of a file name -/

/-- `VaultPath::stem`. -/
def VaultPath.stem (path : VaultPath) : List Char :=
  let filename := path.filename.toList
  match filename.reverse.dropWhile (· ≠ '.') with
  | _ :: before => if before = [] then filename else before.reverse
  | [] => filename

/-- `VaultPath::decode_slug`: `%2F` first, then `%25`. -/
def VaultPath.decodeSlug (path : VaultPath) : List Char :=
  replaceText ['%', '2', '5'] ['%'] (replaceText ['%', '2', 'F'] ['/'] path.stem)

/-! ### Cutting an encoded text -/

variable {kept : List Char}

@[simp] theorem percentEncode_nil : percentEncode [] = [] := rfl

@[simp] theorem percentEncode_append (first second : List Char) :
    percentEncode (first ++ second) = percentEncode first ++ percentEncode second := by
  rw [percentEncode_eq, percentEncode_eq, percentEncode_eq, flatMap_append]

theorem percentEncode_cons (character : Char) (rest : List Char) :
    percentEncode (character :: rest) = encodeChar character ++ percentEncode rest := by
  rw [percentEncode_eq, percentEncode_eq, flatMap_cons]

theorem percentEncode_of_plain (noPercent : '%' ∉ text) (noSlash : '/' ∉ text) :
    percentEncode text = text := by
  induction text with
  | nil => rfl
  | cons character rest ih =>
    rw [mem_cons, not_or] at noPercent noSlash
    rw [percentEncode_cons, ih noPercent.2 noSlash.2,
      encodeChar_of_plain (Ne.symm noPercent.1) (Ne.symm noSlash.1)]
    rfl

theorem encodeChar_cases (character : Char) : (character ≠ '%' ∧ encodeChar character = [character])
      ∨ ∃ last, (last = '5' ∨ last = 'F') ∧ encodeChar character = ['%', '2', last] := by
  unfold encodeChar
  split_ifs with isPercent isSlash
  · exact .inr ⟨'5', .inl rfl, rfl⟩
  · exact .inr ⟨'F', .inr rfl, rfl⟩
  · exact .inl ⟨isPercent, rfl⟩

theorem byteLen_encodeChar_pos (character : Char) : 0 < byteLen (encodeChar character) := by
  rcases encodeChar_cases character with ⟨_, plain⟩ | ⟨last, _, escape⟩
  · rw [plain, byteLen_cons]
    have positive := character.utf8Size_pos
    omega
  · rw [escape, byteLen_cons]
    have positive := '%'.utf8Size_pos
    omega

theorem percentEncode_whole (text : List Char) : (∀ before, percentEncode text ≠ before ++ ['%'])
      ∧ ∀ before last, percentEncode text ≠ before ++ ['%', last] := by
  induction text using List.reverseRecOn with
  | nil => exact ⟨by simp, by simp⟩
  | append_singleton rest character ih =>
    have split : percentEncode (rest ++ [character])
        = percentEncode rest ++ encodeChar character := by
      rw [percentEncode_append, percentEncode_cons, percentEncode_nil, append_nil]
    rw [split]
    rcases encodeChar_cases character with ⟨notPercent, plain⟩ | ⟨last, isLast, escape⟩
    · rw [plain]
      refine ⟨?_, ?_⟩
      · intro before same
        exact notPercent (List.singleton_inj.1 (append_inj' same rfl).2)
      · intro before last same
        have pair : before ++ ['%', last] = (before ++ ['%']) ++ [last] := by simp
        rw [pair] at same
        exact ih.1 before (append_inj' same rfl).1
    · have pair : percentEncode rest ++ encodeChar character
          = (percentEncode rest ++ ['%', '2']) ++ [last] := by simp [escape]
      have triple : percentEncode rest ++ encodeChar character
          = (percentEncode rest ++ ['%']) ++ ['2', last] := by simp [escape]
      refine ⟨?_, ?_⟩
      · intro before same
        rw [pair] at same
        have isPercent := List.singleton_inj.1 (append_inj' same rfl).2
        rcases isLast with five | letter
        · exact absurd (five.symm.trans isPercent) (by decide)
        · exact absurd (letter.symm.trans isPercent) (by decide)
      · intro before other same
        rw [triple] at same
        have ends := (append_inj' same rfl).2
        exact absurd (List.cons.inj ends).1 (by decide)

theorem cut_percentEncode {first second : List Char} (split : percentEncode text = first ++ second) :
    ∃ kept rest, text = kept ++ rest ∧ (first = percentEncode kept
      ∨ ∃ character others, rest = character :: others ∧ byteLen (encodeChar character) = 3
        ∧ (first = percentEncode kept ++ ['%'] ∨ first = percentEncode kept ++ ['%', '2'])) := by
  induction text generalizing first with
  | nil =>
    have none := (append_eq_nil_iff.1 split.symm).1
    exact ⟨[], [], rfl, .inl none⟩
  | cons character rest ih =>
    rw [percentEncode_cons] at split
    rcases append_eq_append_iff.1 split with ⟨more, isFirst, later⟩ | ⟨more, isChar, _⟩
    · have ⟨kept, others, isRest, cases⟩ := ih later
      refine ⟨character :: kept, others, by rw [isRest, cons_append], ?_⟩
      rw [percentEncode_cons, isFirst]
      refine cases.imp (fun whole => by rw [whole]) ?_
      rintro ⟨next, after, isNext, three, within⟩
      refine ⟨next, after, isNext, three, within.imp ?_ ?_⟩
      · intro one
        rw [one, List.append_assoc]
      · intro two
        rw [two, List.append_assoc]
    · by_cases none : first = []
      · exact ⟨[], character :: rest, rfl, .inl none⟩
      by_cases whole : more = []
      · refine ⟨[character], rest, rfl, .inl ?_⟩
        rw [whole, append_nil] at isChar
        rw [percentEncode_cons, percentEncode_nil, append_nil, isChar]
      -- a cut inside the encoding of one character
      have ⟨start, others, isFirst⟩ := exists_cons_of_ne_nil none
      have ⟨second, after, isMore⟩ := exists_cons_of_ne_nil whole
      rw [isFirst, isMore] at isChar
      rcases encodeChar_cases character with ⟨_, plain⟩ | ⟨last, isLast, escape⟩
      · rw [plain] at isChar
        have lengths := congrArg List.length isChar
        simp only [length_cons, length_nil, List.length_append] at lengths
        omega
      · have three : byteLen (encodeChar character) = 3 := by
          rw [escape]
          rcases isLast with five | letter
          · rw [five]
            decide
          · rw [letter]
            decide
        refine ⟨[], character :: rest, rfl, .inr ⟨character, rest, rfl, three, ?_⟩⟩
        rw [escape, cons_append] at isChar
        have ⟨isStart, tail⟩ := List.cons.inj isChar
        rw [isFirst, ← isStart]
        cases others with
        | nil => exact .inl rfl
        | cons second' others' =>
          rw [cons_append] at tail
          have ⟨isTwo, tail⟩ := List.cons.inj tail
          have lengths := congrArg List.length tail
          simp only [length_cons, length_nil, List.length_append] at lengths
          have noOthers : others' = [] := List.length_eq_zero_iff.1 (by omega)
          rw [noOthers, ← isTwo]
          exact .inr rfl

structure LongestKept (text : List Char) (maxBytes : Nat) (kept : List Char) : Prop where
  initial : kept <+: text
  fits : byteLen (percentEncode kept) ≤ maxBytes
  longest : ∀ other, other <+: text → byteLen (percentEncode other) ≤ maxBytes →
    other.length ≤ kept.length

theorem LongestKept.unique {other : List Char} (longest : LongestKept text maxBytes kept)
    (alsoLongest : LongestKept text maxBytes other) :
    kept = other := by
  have atMost := longest.longest other alsoLongest.initial alsoLongest.fits
  have atLeast := alsoLongest.longest kept longest.initial longest.fits
  exact (prefix_of_prefix_length_le longest.initial alsoLongest.initial atLeast).eq_of_length
    (by omega)

theorem longestKept_self (fits : byteLen (percentEncode text) ≤ maxBytes) :
    LongestKept text maxBytes text :=
  ⟨prefix_rfl, fits, fun _ initial _ => initial.length_le⟩

theorem longestKept_of_boundary {rest : List Char} {boundary : Nat} (split : text = kept ++ rest)
    (fits : byteLen (percentEncode kept) ≤ maxBytes)
    (last : ∀ before after, percentEncode text = before ++ after → byteLen before ≤ maxBytes →
      byteLen before ≤ boundary)
    (near : ∀ character others, rest = character :: others →
      boundary < byteLen (percentEncode kept) + byteLen (encodeChar character)) :
    LongestKept text maxBytes kept := by
  refine ⟨split ▸ prefix_append kept rest, fits, ?_⟩
  intro other initial otherFits
  by_contra longer
  have ⟨more, isOther⟩ := prefix_of_prefix_length_le
    (split ▸ prefix_append kept rest : kept <+: text) initial (by omega)
  cases more with
  | nil =>
    rw [← isOther, append_nil] at longer
    exact longer (Nat.le_refl _)
  | cons character others =>
    have ⟨after, whole⟩ := initial
    have isRest : rest = character :: (others ++ after) := by
      rw [← isOther, List.append_assoc, split] at whole
      exact (append_cancel_left whole).symm
    have encoded : percentEncode text = percentEncode other ++ percentEncode after := by
      rw [← whole, percentEncode_append]
    have within := last _ _ encoded otherFits
    have beyond := near character _ isRest
    rw [← isOther, percentEncode_append, percentEncode_cons, byteLen_append, byteLen_append]
      at within
    omega

theorem floorBoundary_spec (text : List Char) (maxBytes : Nat) :
    ∃ first second, text = first ++ second ∧ byteLen first = floorBoundary text maxBytes
      ∧ floorBoundary text maxBytes ≤ maxBytes
      ∧ ∀ before after, text = before ++ after → byteLen before ≤ maxBytes →
          byteLen before ≤ floorBoundary text maxBytes := by
  induction maxBytes with
  | zero => exact ⟨[], text, rfl, rfl, Nat.le_refl 0, fun _ _ _ fits => fits⟩
  | succ bytes ih =>
    unfold floorBoundary
    split_ifs with isBoundary
    · obtain ⟨parts, cut⟩ := Option.isSome_iff_exists.1 isBoundary
      obtain ⟨joined, length⟩ := splitAtByte_eq_some_iff.1 cut
      exact ⟨parts.1, parts.2, joined, length, Nat.le_refl _, fun _ _ _ fits => fits⟩
    · obtain ⟨first, second, joined, length, small, last⟩ := ih
      refine ⟨first, second, joined, length, by omega, ?_⟩
      intro before after split fits
      apply last before after split
      by_contra beyond
      apply isBoundary
      rw [(@splitAtByte_eq_some_iff text before after (bytes + 1)).2 ⟨split, by omega⟩]
      rfl

/-- **An encoded text is cut between two encodings**, as late as the bytes allow. -/
theorem truncateSafe_percentEncode (text : List Char) (maxBytes : Nat) :
    ∃ kept, LongestKept text maxBytes kept
      ∧ truncateSafe (percentEncode text) maxBytes = some (percentEncode kept) := by
  by_cases whole : byteLen (percentEncode text) ≤ maxBytes
  · exact ⟨text, longestKept_self whole, if_pos whole⟩
  have ⟨first, second, split, isBoundary, small, last⟩ :=
    floorBoundary_spec (percentEncode text) maxBytes
  have ⟨kept, rest, isText, cases⟩ := cut_percentEncode split
  have percentAscii : '%'.toNat < 128 := by decide
  have onePercent : '%'.utf8Size = 1 := rfl
  unfold truncateSafe
  rw [if_neg whole]
  simp only [← isBoundary]
  rw [← isBoundary] at small last
  rcases cases with isKept | ⟨character, others, isRest, three, within⟩
  · -- the cut falls between two encodings
    have notLast : ¬(1 ≤ byteLen first ∧
        (asBytes (percentEncode text))[byteLen first - 1]? = some (asciiByte '%')) := by
      intro both
      rw [split] at both
      have ⟨before, ends, _⟩ := concat_of_getElem?_last percentAscii
        (by omega : byteLen first = (byteLen first - 1) + 1) both.2
      exact (percentEncode_whole kept).1 before (isKept.symm.trans ends)
    have notSecondLast : ¬(2 ≤ byteLen first ∧
        (asBytes (percentEncode text))[byteLen first - 2]? = some (asciiByte '%')) := by
      intro both
      rw [split] at both
      have ⟨before, last, ends⟩ := append_pair_of_getElem? percentAscii
        (by omega : byteLen first = (byteLen first - 2) + 2) both.2
      exact (percentEncode_whole kept).2 before last (isKept.symm.trans ends)
    rw [if_neg notLast, if_neg notSecondLast, split, splitAtByte_append]
    refine ⟨kept, longestKept_of_boundary isText (isKept ▸ small) last ?_, by rw [← isKept]; rfl⟩
    intro next _ _
    have positive := byteLen_encodeChar_pos next
    rw [isKept]
    omega
  · have near : ∀ next after, rest = next :: after → byteLen first < byteLen (percentEncode kept) + 3 →
        byteLen first < byteLen (percentEncode kept) + byteLen (encodeChar next) := by
      intro next after isNext close
      rw [isRest] at isNext
      rw [← (List.cons.inj isNext).1, three]
      exact close
    rcases within with one | two
    · -- the `%` is left of an escape
      have length : byteLen first = byteLen (percentEncode kept) + 1 := by
        rw [one, byteLen_append, byteLen_cons, onePercent]
        rfl
      have isPercent : (asBytes (percentEncode text))[byteLen first - 1]? = some (asciiByte '%') := by
        rw [length, split, one, List.append_assoc, Nat.add_sub_cancel]
        exact getElem?_ascii percentAscii _ _
      rw [if_pos ⟨by omega, isPercent⟩, length, Nat.add_sub_cancel, split, one, List.append_assoc,
        splitAtByte_append]
      exact ⟨kept, longestKept_of_boundary isText (by omega) last fun next after isNext =>
        near next after isNext (by omega), rfl⟩
    · -- the `%2` is left of an escape
      have length : byteLen first = byteLen (percentEncode kept) + 2 := by
        rw [two, byteLen_append]
        rfl
      have notLast : ¬(1 ≤ byteLen first ∧
          (asBytes (percentEncode text))[byteLen first - 1]? = some (asciiByte '%')) := by
        intro both
        rw [split] at both
        have ⟨before, ends, _⟩ := concat_of_getElem?_last percentAscii
          (by omega : byteLen first = (byteLen first - 1) + 1) both.2
        have pair : percentEncode kept ++ ['%', '2'] = (percentEncode kept ++ ['%']) ++ ['2'] := by
          simp
        rw [two, pair] at ends
        exact absurd (List.singleton_inj.1 (append_inj' ends rfl).2) (by decide)
      have isPercent : (asBytes (percentEncode text))[byteLen first - 2]? = some (asciiByte '%') := by
        rw [length, split, two, List.append_assoc, Nat.add_sub_cancel]
        exact getElem?_ascii percentAscii _ _
      rw [if_neg notLast, if_pos ⟨by omega, isPercent⟩, length, Nat.add_sub_cancel, split, two,
        List.append_assoc, splitAtByte_append]
      exact ⟨kept, longestKept_of_boundary isText (by omega) last fun next after isNext =>
        near next after isNext (by omega), rfl⟩

/-! ### Decoding -/

theorem replaceText_slash (text : List Char) :
    replaceText ['%', '2', 'F'] ['/'] (percentEncode text)
      = replaceChar '%' ['%', '2', '5'] text := by
  unfold replaceText replaceChar
  induction text with
  | nil => rfl
  | cons character rest ih =>
    rw [percentEncode_cons, flatMap_cons, ← ih]
    unfold encodeChar
    split_ifs with isPercent isSlash
    · simp [replaceFrom]
    · rw [isSlash]
      simp [replaceFrom]
    · have other : ¬['%', '2', 'F'].isPrefixOf (character :: percentEncode rest) = true := by
        simp [Ne.symm isPercent]
      rw [singleton_append, singleton_append, replaceFrom, if_neg other]

theorem replaceText_percent (text : List Char) :
    replaceText ['%', '2', '5'] ['%'] (replaceChar '%' ['%', '2', '5'] text) = text := by
  unfold replaceText replaceChar
  induction text with
  | nil => rfl
  | cons character rest ih =>
    rw [flatMap_cons]
    split_ifs with isPercent
    · rw [isPercent]
      simp [replaceFrom, ih]
    · have other : ∀ after, ¬['%', '2', '5'].isPrefixOf (character :: after) = true := by
        intro after
        simp [Ne.symm isPercent]
      rw [singleton_append, replaceFrom, if_neg (other _), ih]

theorem stem_pageFile {stem : List Char} (noSeparator : '/' ∉ stem) :
    (pageFile stem noSeparator).stem = if stem = [] then ['.', 'm', 'd'] else stem := by
  have filename : (pageFile stem noSeparator).filename.toList = stem ++ ['.', 'm', 'd'] :=
    toList_ofList
  have dropped : (stem ++ ['.', 'm', 'd']).reverse.dropWhile (fun character => character ≠ '.')
      = '.' :: stem.reverse := by
    rw [reverse_append]
    rfl
  unfold VaultPath.stem
  simp only [filename, dropped, reverse_eq_nil_iff, reverse_reverse]
  split_ifs with none
  · rw [none, nil_append]
  · rfl

theorem stem_pageFile_percentEncode (some : kept ≠ []) (noSeparator : '/' ∉ percentEncode kept) :
    (pageFile (percentEncode kept) noSeparator).stem = percentEncode kept := by
  rw [stem_pageFile, if_neg]
  intro none
  have ⟨character, rest, isKept⟩ := exists_cons_of_ne_nil some
  have length := congrArg byteLen none
  have positive := byteLen_encodeChar_pos character
  rw [isKept, percentEncode_cons, byteLen_append, byteLen_nil] at length
  omega

theorem decodeSlug_pageFile (some : kept ≠ []) (noSeparator : '/' ∉ percentEncode kept) :
    (pageFile (percentEncode kept) noSeparator).decodeSlug = kept := by
  unfold VaultPath.decodeSlug
  rw [stem_pageFile_percentEncode some, replaceText_slash, replaceText_percent]

/-! ### NFC -/

/-- Parts of NFC text are NFC, and NFC joins text only at characters it composes: no ASCII one
with what is before it, nor `-`, `%` and digits with what is behind. -/
structure NfcLaws (nfc : String → String) : Prop where
  nfc_nfc : ∀ text, nfc (nfc text) = nfc text
  part : ∀ before after : List Char, nfc (String.ofList (before ++ after))
    = String.ofList (before ++ after) → nfc (String.ofList before) = String.ofList before
        ∧ nfc (String.ofList after) = String.ofList after
  join : ∀ (before : List Char) (ascii : Char) (after : List Char), ascii.toNat < 128 →
    nfc (String.ofList before) = String.ofList before →
    nfc (String.ofList (ascii :: after)) = String.ofList (ascii :: after) →
    nfc (String.ofList (before ++ ascii :: after)) = String.ofList (before ++ ascii :: after)
  inert : ∀ (character : Char) (after : List Char), character ∈ ['-', '%', '2', '5'] →
    nfc (String.ofList after) = String.ofList after →
    nfc (String.ofList (character :: after)) = String.ofList (character :: after)
  ascii : ∀ text : List Char, (∀ character ∈ text, character.toNat < 128) →
    nfc (String.ofList text) = String.ofList text
  separator : ∀ text : String, '/' ∉ text.toList → '/' ∉ (nfc text).toList

section Nfc

variable {nfc : String → String}

def Composed (nfc : String → String) (text : List Char) : Prop :=
  nfc (String.ofList text) = String.ofList text

variable {text : List Char}

theorem NfcLaws.composed_infix (laws : NfcLaws nfc) {part : List Char}
    (composed : Composed nfc text) (inside : part <:+: text) : Composed nfc part := by
  have ⟨before, after, split⟩ := inside
  rw [← split] at composed
  exact (laws.part _ _ (laws.part _ _ composed).1).2

theorem NfcLaws.composed_append_iff (laws : NfcLaws nfc) {before after : List Char} {ascii : Char}
    (isAscii : ascii.toNat < 128) :
    Composed nfc (before ++ ascii :: after) ↔ Composed nfc before ∧ Composed nfc (ascii :: after) :=
  ⟨fun composed => laws.part _ _ composed, fun both => laws.join _ _ _ isAscii both.1 both.2⟩

theorem NfcLaws.composed_cons_iff (laws : NfcLaws nfc) {character : Char} {after : List Char}
    (isInert : character ∈ ['-', '%', '2', '5']) :
    Composed nfc (character :: after) ↔ Composed nfc after :=
  ⟨fun composed => (laws.part [character] after composed).2, laws.inert _ _ isInert⟩

theorem NfcLaws.composed_spaced (laws : NfcLaws nfc) :
    ∀ {texts : List (List Char)}, (∀ word ∈ texts, Composed nfc word) →
      Composed nfc (spaced '-' texts)
  | [], _ => laws.ascii [] (forall_mem_nil _)
  | [word], composed => by
    rw [spaced_singleton]
    exact composed word mem_cons_self
  | first :: second :: rest, composed => by
    rw [spaced_cons_cons, laws.composed_append_iff (by decide), laws.composed_cons_iff (by decide)]
    exact ⟨composed first mem_cons_self, laws.composed_spaced fun word member =>
      composed word (mem_cons_of_mem first member)⟩

theorem infix_of_mem_words_legal {word : List Char}
    (member : word ∈ words isDash (text.map legalChar)) : word <:+: text := by
  have ⟨isWord, inside⟩ := isWord_and_infix_of_mem word member
  have ⟨before, after, split⟩ := inside
  have ⟨first, last, isText, isFirst, _⟩ := map_eq_append_iff.1 split.symm
  have ⟨start, origin, isStart, _, isOrigin⟩ := map_eq_append_iff.1 isFirst
  have same : origin.map legalChar = origin := by
    rw [map_congr_left, List.map_id]
    intro character inOrigin
    have solid := isWord.solid (legalChar character) (isOrigin ▸ mem_map_of_mem inOrigin)
    unfold legalChar at solid ⊢
    split_ifs at solid ⊢
    · exact absurd solid (by decide)
    · rfl
  rw [same] at isOrigin
  rw [← isOrigin, isText, isStart]
  exact ⟨start, last, rfl⟩

theorem NfcLaws.composed_sanitised (laws : NfcLaws nfc) (title : String) :
    Composed nfc (sanitised nfc title) := by
  have composed : Composed nfc (nfc title).toList := by
    unfold Composed
    rw [ofList_toList, laws.nfc_nfc]
  unfold sanitised
  rw [cleaned_eq]
  exact laws.composed_spaced fun word member =>
    laws.composed_infix composed (infix_of_mem_words_legal member)

/-- No `/` stands before text that NFC joins to an `F`. -/
def SlashesApart (nfc : String → String) (text : List Char) : Prop :=
  ∀ before after, text = before ++ '/' :: after → Composed nfc ('F' :: after)

theorem NfcLaws.composed_letter_iff (laws : NfcLaws nfc) (composed : Composed nfc text) :
    Composed nfc ('F' :: percentEncode text) ↔
      Composed nfc ('F' :: text) ∧ Composed nfc (percentEncode text) := by
  have partOf : ∀ {rest : List Char}, Composed nfc ('F' :: rest) → Composed nfc rest :=
    fun whole => (laws.part ['F'] _ whole).2
  rcases @solid_or_first_blank _ (fun character => character == '%' || character == '/') text
    with solid | ⟨plain, special, rest, split, solid, isSpecial⟩
  · have same : percentEncode text = text :=
      percentEncode_of_plain (fun member => by simpa using solid _ member)
        (fun member => by simpa using solid _ member)
    rw [same]
    exact ⟨fun whole => ⟨whole, composed⟩, And.left⟩
  · have same : percentEncode plain = plain :=
      percentEncode_of_plain (fun member => by simpa using solid _ member)
        (fun member => by simpa using solid _ member)
    obtain ⟨more, escape⟩ : ∃ more, encodeChar special = '%' :: more := by
      rcases encodeChar_cases special with ⟨notPercent, single⟩ | ⟨last, _, escape⟩
      · have isSlash : special = '/' := by simpa [notPercent] using isSpecial
        rw [isSlash]
        exact ⟨['2', 'F'], rfl⟩
      · exact ⟨['2', last], escape⟩
    have specialAscii : special.toNat < 128 := by
      simp only [Bool.or_eq_true, beq_iff_eq] at isSpecial
      rcases isSpecial with percent | slash
      · rw [percent]
        decide
      · rw [slash]
        decide
    rw [split] at composed ⊢
    rw [percentEncode_append, percentEncode_cons, same, escape]
    show Composed nfc (('F' :: plain) ++ '%' :: (more ++ percentEncode rest)) ↔
      Composed nfc (('F' :: plain) ++ special :: rest)
        ∧ Composed nfc (plain ++ '%' :: (more ++ percentEncode rest))
    rw [laws.composed_append_iff (by decide), laws.composed_append_iff specialAscii,
      laws.composed_append_iff (by decide)]
    have atSpecial := ((laws.composed_append_iff specialAscii).1 composed).2
    constructor
    · exact fun both => ⟨⟨both.1, atSpecial⟩, partOf both.1, both.2⟩
    · exact fun both => ⟨both.1.1, both.2.2⟩

theorem NfcLaws.composed_percentEncode_iff (laws : NfcLaws nfc) (composed : Composed nfc text) :
    Composed nfc (percentEncode text) ↔ SlashesApart nfc text := by
  induction length : text.length using Nat.strong_induction_on generalizing text with
  | h size ih =>
    rcases @solid_or_first_blank _ (fun character => character == '%' || character == '/') text
      with solid | ⟨plain, special, rest, split, solid, isSpecial⟩
    · have noSlash : '/' ∉ text := fun member => by simpa using solid _ member
      rw [percentEncode_of_plain (fun member => by simpa using solid _ member) noSlash]
      refine iff_of_true composed ?_
      intro before after isText
      exact absurd (isText ▸ mem_append_right _ mem_cons_self) noSlash
    · have noSlash : '/' ∉ plain := fun member => by simpa using solid _ member
      have same : percentEncode plain = plain :=
        percentEncode_of_plain (fun member => by simpa using solid _ member) noSlash
      have restComposed : Composed nfc rest :=
        laws.composed_infix composed ⟨plain ++ [special], [], by simp [split]⟩
      have plainComposed : Composed nfc plain :=
        laws.composed_infix composed ⟨[], special :: rest, by simp [split]⟩
      rw [split, List.length_append, length_cons] at length
      have later : Composed nfc (percentEncode rest) ↔ SlashesApart nfc rest :=
        ih rest.length (by omega) restComposed rfl
      -- a `/` of the text is the special character or stands behind it
      have apart : SlashesApart nfc text ↔
          (special = '/' → Composed nfc ('F' :: rest)) ∧ SlashesApart nfc rest := by
        rw [split]
        constructor
        · intro all
          refine ⟨fun isSlash => all plain rest (by rw [isSlash]), ?_⟩
          intro before after isRest
          exact all (plain ++ special :: before) after (by rw [isRest]; simp)
        · intro both before after isText
          rcases append_eq_append_iff.1 isText with ⟨more, isBefore, tail⟩ | ⟨more, isPlain, tail⟩
          · cases more with
            | nil =>
              have ⟨isSlash, isRest⟩ := List.cons.inj tail
              rw [← isRest]
              exact both.1 isSlash
            | cons first others =>
              exact both.2 others after (List.cons.inj tail).2
          · cases more with
            | nil =>
              have ⟨isSlash, isRest⟩ := List.cons.inj tail
              rw [isRest]
              exact both.1 isSlash.symm
            | cons first others =>
              have isSlash := (List.cons.inj tail).1
              exact absurd (isPlain ▸ isSlash ▸ mem_append_right _ mem_cons_self) noSlash
      rw [apart, split, percentEncode_append, percentEncode_cons, same, ← later]
      simp only [Bool.or_eq_true, beq_iff_eq] at isSpecial
      rcases isSpecial with isPercent | isSlash
      · rw [isPercent]
        show Composed nfc (plain ++ '%' :: '2' :: '5' :: percentEncode rest) ↔ _
        rw [laws.composed_append_iff (by decide), laws.composed_cons_iff (by decide),
          laws.composed_cons_iff (by decide), laws.composed_cons_iff (by decide)]
        exact ⟨fun both => ⟨fun isSlash => absurd isSlash (by decide), both.2⟩,
          fun both => ⟨plainComposed, both.2⟩⟩
      · rw [isSlash]
        show Composed nfc (plain ++ '%' :: '2' :: 'F' :: percentEncode rest) ↔ _
        rw [laws.composed_append_iff (by decide), laws.composed_cons_iff (by decide),
          laws.composed_cons_iff (by decide), laws.composed_letter_iff restComposed]
        exact ⟨fun both => ⟨fun _ => both.2.1, both.2.2⟩,
          fun both => ⟨plainComposed, both.1 rfl, both.2⟩⟩

/-! ### The title read back -/

structure PlainTitle (text : List Char) : Prop where
  legal : ∀ character ∈ text, isIllegalFilenameChar character = false
  apart : ¬['-', '-'] <:+: text
  first : text.head? ≠ some '-'
  last : text.getLast? ≠ some '-'

/-- The file name of a title is a path, is cut between encodings, and reads back as what was kept of
it. -/
structure ReadsBack (nfc : String → String) (title : String) (path : VaultPath) : Prop where
  accepted : VaultPath.new nfc path.asStr = .ok path
  short : byteLen path.stem ≤ maxSlugBytes
  uncut : ∃ kept, kept <+: sanitised nfc title ∧ path.stem = percentEncode kept
  start : path.decodeSlug <+: sanitised nfc title
  whole : byteLen (percentEncode (sanitised nfc title)) ≤ maxSlugBytes →
    path.decodeSlug = sanitised nfc title
  exactly : PlainTitle (nfc title).toList →
    byteLen (percentEncode (nfc title).toList) ≤ maxSlugBytes →
    path.decodeSlug = (nfc title).toList

/-- Something is left of the title, and no `/` in it stands before text that NFC joins to an `F`. -/
structure SlugSafe (nfc : String → String) (title : String) : Prop where
  some : sanitised nfc title ≠ []
  apart : ∀ kept, LongestKept (sanitised nfc title) maxSlugBytes kept → SlashesApart nfc kept

theorem cleaned_of_plainTitle (plain : PlainTitle text) : cleaned text = text := by
  have legal : text.map legalChar = text := by
    rw [map_congr_left, List.map_id]
    intro character member
    unfold legalChar
    rw [plain.legal character member, if_neg Bool.false_ne_true]
    rfl
  have single : ∀ {rest : List Char} {previous : Bool}, ¬['-', '-'] <:+: rest →
      (previous = true → rest.head? ≠ some '-') → collapse isDash '-' previous rest = rest := by
    intro rest
    induction rest with
    | nil => exact fun _ _ => rfl
    | cons character others ih =>
      intro previous apart start
      have laterApart : ¬['-', '-'] <:+: others := fun inside =>
        apart (inside.trans (suffix_cons character others).isInfix)
      unfold collapse
      cases dash : isDash character with
      | false =>
        rw [if_neg Bool.false_ne_true, ih laterApart
          fun wasDash => absurd wasDash Bool.false_ne_true]
      | true =>
        rw [isDash, beq_iff_eq] at dash
        rw [dash] at apart start ⊢
        have notPrevious : previous = false := by
          cases previous with
          | true => exact absurd rfl (start rfl)
          | false => rfl
        rw [notPrevious, if_pos rfl, if_neg Bool.false_ne_true, ih laterApart]
        intro _ again
        apply apart
        obtain ⟨after, isOthers⟩ : ∃ after, others = '-' :: after := by
          cases others with
          | nil => cases again
          | cons next after => exact ⟨after, by rw [some.inj again]⟩
        rw [isOthers]
        exact (prefix_append ['-', '-'] after).isInfix
  unfold cleaned
  rw [legal, single plain.apart fun wasDash => absurd wasDash Bool.false_ne_true, Trim.trim_eq_self_iff]
  refine ⟨?_, ?_⟩
  · intro character isFirst
    have notDash : character ≠ '-' := fun dash => plain.first (dash ▸ isFirst)
    simpa [isDash] using notDash
  · intro character isLast
    have notDash : character ≠ '-' := fun dash => plain.last (dash ▸ isLast)
    simpa [isDash] using notDash

theorem VaultPath.asStr_pageFile {stem : List Char} (noSeparator : '/' ∉ stem) :
    (pageFile stem noSeparator).asStr = String.ofList (stem ++ ['.', 'm', 'd']) := by
  unfold VaultPath.asStr VaultPath.join pageFile
  simp

theorem NfcLaws.new_pageFile_iff (laws : NfcLaws nfc) {stem : List Char} (noSeparator : '/' ∉ stem)
    (noBackslash : '\\' ∉ stem) :
    VaultPath.new nfc (pageFile stem noSeparator).asStr = .ok (pageFile stem noSeparator) ↔
      Composed nfc stem := by
  have text := VaultPath.asStr_pageFile noSeparator
  have ending : Composed nfc ['.', 'm', 'd'] := by
    apply laws.ascii
    simp
  have whole : Composed nfc (stem ++ ['.', 'm', 'd']) ↔ Composed nfc stem := by
    rw [laws.composed_append_iff (by decide)]
    exact ⟨And.left, fun composed => ⟨composed, ending⟩⟩
  rw [← whole]
  constructor
  · intro accepted
    have noSlash : '/' ∉ (String.ofList (stem ++ ['.', 'm', 'd'])).toList := by
      rw [toList_ofList]
      simp [noSeparator]
    have pieces : VaultPath.pieces (nfc (pageFile stem noSeparator).asStr)
        = [nfc (pageFile stem noSeparator).asStr] := by
      rw [text]
      unfold VaultPath.pieces
      rw [splitOn_eq_singleton (laws.separator _ noSlash)]
      simp
    have components := (VaultPath.components_of_new accepted).1
    rw [pieces] at components
    have isName : (pageFile stem noSeparator).components
        = [nfc (pageFile stem noSeparator).asStr] := by
      rw [filter_singleton] at components
      cases kept : decide (nfc (pageFile stem noSeparator).asStr ≠ ""
          ∧ nfc (pageFile stem noSeparator).asStr ≠ ".") with
      | true =>
        rw [kept] at components
        exact components
      | false =>
        rw [kept] at components
        exact absurd components (pageFile stem noSeparator).nonempty
    have same := List.singleton_inj.1 isName
    rw [text] at same
    exact same.symm
  · intro composed
    apply VaultPath.new_asStr
    · rw [text]
      exact composed
    · rw [text, toList_ofList]
      simp [noBackslash]

theorem noBackslash_percentEncode (absent : '\\' ∉ text) : '\\' ∉ percentEncode text := by
  rw [percentEncode_eq]
  intro member
  have ⟨character, inText, inImage⟩ := mem_flatMap.1 member
  unfold encodeChar at inImage
  split_ifs at inImage
  · exact absurd inImage (by decide)
  · exact absurd inImage (by decide)
  · exact absent (mem_singleton.1 inImage ▸ inText)

theorem noBackslash_sanitised (title : String) : '\\' ∉ sanitised nfc title := by
  unfold sanitised
  rw [cleaned_eq]
  intro member
  rcases mem_spaced member with isDash | ⟨word, inWords, inWord⟩
  · exact absurd isDash (by decide)
  · have ⟨character, _, isLegal⟩ := mem_map.1 (mem_of_mem_words inWords inWord)
    unfold legalChar at isLegal
    split_ifs at isLegal with illegal
    · exact absurd isLegal (by decide)
    · rw [isLegal] at illegal
      exact illegal (by decide)

theorem exists_fromTitle (nfc : String → String) (title : String) :
    ∃ kept, ∃ noSeparator : '/' ∉ percentEncode kept,
      LongestKept (sanitised nfc title) maxSlugBytes kept
        ∧ fromTitle nfc title = some (pageFile (percentEncode kept) noSeparator) := by
  have ⟨kept, longest, truncated⟩ := truncateSafe_percentEncode (sanitised nfc title) maxSlugBytes
  rw [← slugOf_eq] at truncated
  refine ⟨kept, noSeparator_percentEncode kept, longest, ?_⟩
  unfold fromTitle
  split
  · rename_i none
    rw [truncated] at none
    cases none
  · rename_i stem found
    rw [truncated] at found
    obtain rfl := some.inj found
    rfl

/-- **Exactly which titles have a file name that reads back.** -/
theorem title_slugs_read_back_iff (laws : NfcLaws nfc) (title : String) :
    (∃ path, fromTitle nfc title = some path ∧ ReadsBack nfc title path) ↔ SlugSafe nfc title := by
  have ⟨kept, noSeparator, longest, isFile⟩ := exists_fromTitle nfc title
  have keptComposed : Composed nfc kept :=
    laws.composed_infix (laws.composed_sanitised title) longest.initial.isInfix
  have accepted : VaultPath.new nfc (pageFile (percentEncode kept) noSeparator).asStr
        = .ok (pageFile (percentEncode kept) noSeparator) ↔ SlashesApart nfc kept := by
    rw [laws.new_pageFile_iff noSeparator (noBackslash_percentEncode fun member =>
      noBackslash_sanitised title (longest.initial.subset member)),
      laws.composed_percentEncode_iff keptComposed]
  constructor
  · intro reads
    have ⟨path, found, readsBack⟩ := reads
    obtain rfl := some.inj (isFile.symm.trans found)
    constructor
    · -- with no stem the whole name is read as one
      intro none
      have ⟨other, initial, isStem⟩ := readsBack.uncut
      have noOther : other = [] := prefix_nil.1 (none ▸ initial)
      have noKept : kept = [] := prefix_nil.1 (none ▸ longest.initial)
      rw [stem_pageFile, noKept, if_pos percentEncode_nil, noOther] at isStem
      exact absurd isStem (by decide)
    · intro other alsoLongest
      rw [← longest.unique alsoLongest]
      exact accepted.1 readsBack.accepted
  · intro safe
    have some : kept ≠ [] := by
      intro none
      have ⟨first, rest, isText⟩ := exists_cons_of_ne_nil safe.some
      have oneFits : byteLen (percentEncode [first]) ≤ maxSlugBytes := by
        rw [percentEncode_cons, percentEncode_nil, append_nil]
        rcases encodeChar_cases first with ⟨_, plain⟩ | ⟨last, isLast, escape⟩
        · have small := first.utf8Size_le_four
          rw [plain, byteLen_cons, byteLen_nil, maxSlugBytes]
          omega
        · rw [escape]
          rcases isLast with five | letter
          · rw [five]
            decide
          · rw [letter]
            decide
      have atLeast := longest.longest [first] (isText ▸ prefix_append [first] rest) oneFits
      rw [none] at atLeast
      exact absurd atLeast (by simp)
    have decoded := decodeSlug_pageFile some noSeparator
    have stem := stem_pageFile_percentEncode some noSeparator
    have wholeKept : byteLen (percentEncode (sanitised nfc title)) ≤ maxSlugBytes →
        kept = sanitised nfc title :=
      fun fits => longest.unique (longestKept_self fits)
    refine ⟨_, isFile, accepted.2 (safe.apart kept longest), ?_, ?_, ?_, ?_, ?_⟩
    · rw [stem]
      exact longest.fits
    · exact ⟨kept, longest.initial, stem⟩
    · rw [decoded]
      exact longest.initial
    · intro fits
      rw [decoded, wholeKept fits]
    · intro plain fits
      have same : sanitised nfc title = (nfc title).toList := cleaned_of_plainTitle plain
      rw [← same] at fits ⊢
      rw [decoded, wholeKept fits]

end Nfc

/-! ### ASCII titles -/

def asciiNfc (text : String) : String := text

theorem nfcLaws_asciiNfc : NfcLaws asciiNfc where
  nfc_nfc _ := rfl
  part _ _ _ := ⟨rfl, rfl⟩
  join _ _ _ _ _ _ := rfl
  inert _ _ _ _ := rfl
  ascii _ _ := rfl
  separator _ absent := absent

theorem title_slugs_read_back_iff_slash :
    (∃ path, fromTitle asciiNfc "a/b" = some path ∧ ReadsBack asciiNfc "a/b" path)
      ↔ SlugSafe asciiNfc "a/b" :=
  title_slugs_read_back_iff nfcLaws_asciiNfc "a/b"

/-- A title of which nothing is left reads back as the ending. -/
theorem empty_title_reads_ending : NfcLaws asciiNfc
      ∧ ∃ path, fromTitle asciiNfc "?" = some path ∧ sanitised asciiNfc "?" = []
        ∧ path.decodeSlug = ['.', 'm', 'd'] ∧ ¬ReadsBack asciiNfc "?" path := by
  refine ⟨nfcLaws_asciiNfc, pageFile [] (by decide), rfl, by decide, by decide, ?_⟩
  intro readsBack
  have initial := readsBack.start
  exact absurd initial (by decide)

end Clepsydra.Vault
