import Clepsydra.Feeds.Manifest

/-!
Owns: the last token of a text, and which texts end in a tag.

Proves: tags that are written behind a text are split off again.
-/

namespace Clepsydra.Feeds

open Library List
open Vault (isWhitespace isWhitespace_toLower toLower_cases)

/-! ### Trailing tags -/

def isSolid (character : Char) : Bool := !isWhitespace character

def lastToken (text : List Char) : List Char := (trimEnd text).rtakeWhile isSolid

def beforeToken (text : List Char) : List Char := trimEnd ((trimEnd text).rdropWhile isSolid)

theorem length_trimEnd_le (text : List Char) : (trimEnd text).length ≤ text.length :=
  (List.rdropWhile_prefix isWhitespace text).length_le

theorem trimEnd_begins (text : List Char) : trimEnd text <+: text :=
  rdropWhile_prefix isWhitespace text

theorem beforeToken_begins (text : List Char) : beforeToken text <+: text :=
  (trimEnd_begins _).trans ((List.rdropWhile_prefix isSolid _).trans (trimEnd_begins text))

theorem length_beforeToken_lt {text tag : List Char}
    (isTag : tagToken (lastToken text) = some tag) :
    (beforeToken text).length < text.length := by
  have some : lastToken text ≠ [] := by
    intro none
    rw [none] at isTag
    exact nomatch isTag
  have parts := congrArg List.length (@rdropWhile_append_rtakeWhile _ isSolid (trimEnd text))
  have nonempty : 0 < (lastToken text).length := length_pos_iff.2 some
  have short := length_trimEnd_le text
  have shorter := length_trimEnd_le ((trimEnd text).rdropWhile isSolid)
  rw [length_append] at parts
  unfold lastToken at nonempty
  unfold beforeToken
  omega

theorem splitTagsWithin_succ (rounds : Nat) (text : List Char) :
    splitTagsWithin (rounds + 1) text =
      match tagToken (lastToken text) with
      | none => (text, [])
      | some tag =>
        ((splitTagsWithin rounds (beforeToken text)).1,
          (splitTagsWithin rounds (beforeToken text)).2 ++ [tag]) := rfl

theorem splitTagsWithin_congr {rounds more : Nat} {text : List Char}
    (enough : text.length ≤ rounds) (alsoEnough : text.length ≤ more) :
    splitTagsWithin rounds text = splitTagsWithin more text := by
  induction rounds generalizing more text with
  | zero =>
    rw [length_eq_zero_iff.1 (Nat.le_zero.1 enough)]
    cases more <;> rfl
  | succ rounds ih =>
    cases more with
    | zero =>
      rw [length_eq_zero_iff.1 (Nat.le_zero.1 alsoEnough)]
      rfl
    | succ more =>
      rw [splitTagsWithin_succ, splitTagsWithin_succ]
      cases isTag : tagToken (lastToken text) with
      | none => rfl
      | some tag =>
        have shorter := length_beforeToken_lt isTag
        have same := @ih more (beforeToken text) (by omega) (by omega)
        rw [same]

theorem splitTrailingTags_of_none {text : List Char} (none : tagToken (lastToken text) = none) :
    splitTrailingTags text = (text, []) := by
  rw [splitTrailingTags, splitTagsWithin_congr le_rfl (Nat.le_succ _), splitTagsWithin_succ, none]

theorem splitTrailingTags_of_some {text tag : List Char}
    (isTag : tagToken (lastToken text) = some tag) :
    splitTrailingTags text = ((splitTrailingTags (beforeToken text)).1,
      (splitTrailingTags (beforeToken text)).2 ++ [tag]) := by
  have shorter := length_beforeToken_lt isTag
  rw [splitTrailingTags, splitTagsWithin_congr le_rfl (Nat.le_succ _), splitTagsWithin_succ, isTag]
  dsimp only
  rw [splitTagsWithin_congr shorter.le le_rfl]
  rfl

theorem kept_begins (text : List Char) : (splitTrailingTags text).1 <+: text := by
  induction length : text.length using Nat.strong_induction_on generalizing text with
  | h count ih =>
    cases isTag : tagToken (lastToken text) with
    | none =>
      rw [splitTrailingTags_of_none isTag]
    | some tag =>
      have shorter := length_beforeToken_lt isTag
      rw [splitTrailingTags_of_some isTag]
      exact (ih _ (by omega) (beforeToken text) rfl).trans
        (beforeToken_begins text)

def Untagged (text : List Char) : Prop := tagToken (lastToken text) = none

instance (text : List Char) : Decidable (Untagged text) := inferInstanceAs (Decidable (_ = none))

theorem untagged_of_length_kept {text : List Char}
    (all : text.length ≤ (splitTrailingTags text).1.length) : Untagged text := by
  cases isTag : tagToken (lastToken text) with
  | none => exact isTag
  | some tag =>
    rw [splitTrailingTags_of_some isTag] at all
    have shorter := length_beforeToken_lt isTag
    have kept := (kept_begins (beforeToken text)).length_le
    dsimp only at all
    omega

/-! ### Tokens -/

structure IsTag (tag : List Char) : Prop where
  nonempty : tag ≠ []
  solid : ∀ character ∈ tag, isWhitespace character = false
  bare : tag.head? ≠ some '#'

theorem trimEnd_of_last {text : List Char}
    (solid : ∀ last ∈ text.getLast?, isWhitespace last = false) : trimEnd text = text :=
  Trim.rdropWhile_eq_self_iff_last.2 solid

theorem lastToken_append {before token : List Char} {blank : Char} (nonempty : token ≠ [])
    (solid : ∀ character ∈ token, isWhitespace character = false)
    (isBlank : isWhitespace blank = true) :
    lastToken (before ++ blank :: token) = token
      ∧ beforeToken (before ++ blank :: token) = trimEnd before := by
  have solidToken : ∀ character ∈ token.reverse, isSolid character = true := by
    intro character among
    rw [isSolid, solid character (mem_reverse.1 among)]
    rfl
  have stops : isSolid blank ≠ true := by
    rw [isSolid, isBlank]
    exact Bool.false_ne_true
  have trimmed : trimEnd (before ++ blank :: token) = before ++ blank :: token := by
    apply trimEnd_of_last
    intro last isLast
    rw [getLast?_append_of_ne_nil _ (cons_ne_nil _ _), getLast?_cons_of_ne_nil nonempty] at isLast
    exact solid last (mem_of_mem_getLast? isLast)
  have reversed : (before ++ blank :: token).reverse
      = token.reverse ++ blank :: before.reverse := by
    simp
  constructor
  · rw [lastToken, trimmed, List.rtakeWhile, reversed, takeWhile_append_of_pos solidToken,
      takeWhile_cons_of_neg stops, append_nil, reverse_reverse]
  · rw [beforeToken, trimmed, List.rdropWhile, reversed, dropWhile_append_of_pos solidToken,
      dropWhile_cons_of_neg stops, reverse_cons, reverse_reverse]
    rw [trimEnd, rdropWhile_concat_pos _ _ _ isBlank]
    rfl

theorem tagToken_of_isTag {tag : List Char} (isTag : IsTag tag) :
    tagToken ('#' :: tag) = some tag :=
  if_pos ⟨isTag.nonempty, isTag.bare⟩

theorem isWhitespace_hash : isWhitespace '#' = false := by decide

theorem solid_last_tags {base : List Char} {tags : List (List Char)}
    (areTags : ∀ tag ∈ tags, IsTag tag)
    (solid : ∀ last ∈ base.getLast?, isWhitespace last = false) :
    ∀ last ∈ (base ++ tags.flatMap tagText).getLast?, isWhitespace last = false := by
  intro last isLast
  rcases eq_nil_or_concat tags with rfl | ⟨before, final, rfl⟩
  · exact solid last (by simpa using isLast)
  · have isFinal := areTags final (by simp)
    obtain ⟨ending, isText⟩ : ∃ ending, base ++ (before.concat final).flatMap tagText
        = ending ++ final := ⟨base ++ before.flatMap tagText ++ [' ', '#'], by simp [tagText]⟩
    rw [isText, getLast?_append_of_ne_nil _ isFinal.nonempty] at isLast
    exact isFinal.solid last (mem_of_mem_getLast? isLast)

theorem splitTrailingTags_tags {base : List Char}
    (tight : ∀ last ∈ base.getLast?, isWhitespace last = false)
    {tags : List (List Char)} (areTags : ∀ tag ∈ tags, IsTag tag) :
    splitTrailingTags (base ++ tags.flatMap tagText)
      = ((splitTrailingTags base).1, (splitTrailingTags base).2 ++ tags) := by
  induction tags using List.reverseRecOn with
  | nil => simp
  | append_singleton tags tag ih =>
    have isTag := areTags tag (by simp)
    have earlier := ih fun other among => areTags other (by simp [among])
    have solid : ∀ character ∈ '#' :: tag, isWhitespace character = false :=
      forall_mem_cons.2 ⟨isWhitespace_hash, isTag.solid⟩
    have text : base ++ (tags ++ [tag]).flatMap tagText
        = (base ++ tags.flatMap tagText) ++ ' ' :: ('#' :: tag) := by
      simp [tagText]
    have ⟨isToken, isBefore⟩ := @lastToken_append (base ++ tags.flatMap tagText)
      ('#' :: tag) ' ' (cons_ne_nil _ _) solid (by decide)
    have endsSolid : trimEnd (base ++ tags.flatMap tagText) = base ++ tags.flatMap tagText :=
      trimEnd_of_last (solid_last_tags (fun other among => areTags other (by simp [among])) tight)
    have isLastTag : tagToken (lastToken (base ++ (tags ++ [tag]).flatMap tagText))
        = Option.some tag := by
      rw [text, isToken, tagToken_of_isTag isTag]
    rw [splitTrailingTags_of_some isLastTag, text, isBefore, endsSolid, earlier, append_assoc]

/-! ### Case -/

theorem toLower_eq_hash_iff (character : Char) : character.toLower = '#' ↔ character = '#' := by
  rcases toLower_cases character with same | ⟨low, high, isLower⟩
  · rw [same]
  · have isCode : '#'.toNat = 35 := rfl
    constructor
    · intro same
      rw [same, isCode] at isLower
      omega
    · intro same
      rw [same, isCode] at low
      omega

theorem dropWhile_lower {holds : Char → Bool}
    (sameCase : ∀ character, holds (Char.toLower character) = holds character)
    (text : List Char) : (lower text).dropWhile holds = lower (text.dropWhile holds) := by
  have same : holds ∘ Char.toLower = holds := funext sameCase
  rw [lower, dropWhile_map, same]
  rfl

theorem rdropWhile_lower {holds : Char → Bool}
    (sameCase : ∀ character, holds (Char.toLower character) = holds character)
    (text : List Char) : (lower text).rdropWhile holds = lower (text.rdropWhile holds) := by
  have turned : (lower text).reverse = lower text.reverse := map_reverse.symm
  rw [List.rdropWhile, turned, dropWhile_lower sameCase]
  exact map_reverse.symm

theorem lastToken_lower (text : List Char) : lastToken (lower text) = lower (lastToken text) := by
  have sameSolid : ∀ character, isSolid (Char.toLower character) = isSolid character := by
    intro character
    rw [isSolid, isSolid, isWhitespace_toLower]
  have same : isSolid ∘ Char.toLower = isSolid := funext sameSolid
  have turned : (lower (trimEnd text)).reverse = lower (trimEnd text).reverse := map_reverse.symm
  rw [lastToken, trimEnd, rdropWhile_lower isWhitespace_toLower, List.rtakeWhile]
  show (List.takeWhile isSolid (lower (trimEnd text)).reverse).reverse = _
  rw [turned, lower, takeWhile_map, same]
  exact map_reverse.symm

theorem tagToken_lower (token : List Char) :
    tagToken (lower token) = none ↔ tagToken token = none := by
  cases token with
  | nil => exact Iff.rfl
  | cons first rest =>
    show tagToken (first.toLower :: lower rest) = none ↔ _
    by_cases isHash : first = '#'
    · have isLower : first.toLower = '#' := (toLower_eq_hash_iff first).2 isHash
      rw [isLower, isHash]
      cases rest with
      | nil => exact Iff.rfl
      | cons second rest =>
        show tagToken ('#' :: second.toLower :: lower rest) = none ↔ _
        simp [tagToken, toLower_eq_hash_iff]
    · have notLower : first.toLower ≠ '#' := mt (toLower_eq_hash_iff first).1 isHash
      unfold tagToken
      simp [isHash, notLower]

theorem untagged_lower (text : List Char) : Untagged (lower text) ↔ Untagged text := by
  rw [Untagged, lastToken_lower, tagToken_lower]
  rfl

end Clepsydra.Feeds
