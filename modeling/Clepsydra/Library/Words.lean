import Clepsydra.Library.Trim

/-!
Owns: the words of a list, which are what lies between its blanks.

Proves: words joined by a blank are read back; collapsing the blanks of a text leaves its words
joined so.
-/

namespace Clepsydra.Library.Words

open Library.Trim List

variable {α : Type} (blank : α → Bool)

def Solid (text : List α) : Prop := ∀ character ∈ text, blank character = false

structure IsWord (word : List α) : Prop where
  nonempty : word ≠ []
  solid : Solid blank word

def words (text : List α) : List (List α) :=
  (text.splitOnP blank).filter fun piece => !piece.isEmpty

def spaced (space : α) (words : List (List α)) : List α := [space].intercalate words

variable {blank} {space : α}

/-! ### Splitting -/

theorem solid_or_first_blank (text : List α) :
    Solid blank text ∨ ∃ before separator after, text = before ++ separator :: after
      ∧ Solid blank before ∧ blank separator = true := by
  induction text with
  | nil => exact .inl (forall_mem_nil _)
  | cons character rest ih =>
    cases isBlank : blank character with
    | true => exact .inr ⟨[], character, rest, rfl, forall_mem_nil _, isBlank⟩
    | false =>
      rcases ih with solid | ⟨before, separator, after, split, solid, isSeparator⟩
      · exact .inl (forall_mem_cons.2 ⟨isBlank, solid⟩)
      · refine .inr ⟨character :: before, separator, after, ?_, ?_, isSeparator⟩
        · rw [split, cons_append]
        · exact forall_mem_cons.2 ⟨isBlank, solid⟩

@[simp] theorem words_nil : words blank [] = [] := rfl

theorem words_append_blank {separator : α} (isBlank : blank separator = true)
    (before after : List α) :
    words blank (before ++ separator :: after) = words blank before ++ words blank after := by
  unfold words
  rw [splitOnP_append_cons before after isBlank, filter_append]

theorem words_cons_blank {separator : α} (isBlank : blank separator = true) (text : List α) :
    words blank (separator :: text) = words blank text :=
  words_append_blank isBlank [] text

variable {word : List α}

theorem words_of_isWord (isWord : IsWord blank word) :
    words blank word = [word] := by
  unfold words
  rw [splitOnP_eq_singleton isWord.solid]
  simp [isWord.nonempty]

variable {text : List α}

theorem words_of_solid (solid : Solid blank text) :
    words blank text = if text = [] then [] else [text] := by
  split_ifs with isEmpty
  · rw [isEmpty]
    rfl
  · exact words_of_isWord ⟨isEmpty, solid⟩

theorem isWord_and_infix_of_mem :
    ∀ word ∈ words blank text, IsWord blank word ∧ word <:+: text := by
  induction length : text.length using Nat.strong_induction_on generalizing text with
  | h size ih =>
    have ofSolid : ∀ {part word : List α}, Solid blank part → word ∈ words blank part →
        IsWord blank word ∧ word = part := by
      intro part word solid member
      rw [words_of_solid solid] at member
      split_ifs at member with isEmpty
      · exact absurd member not_mem_nil
      · rw [mem_singleton.1 member]
        exact ⟨⟨isEmpty, solid⟩, rfl⟩
    intro word member
    rcases @solid_or_first_blank _ blank text with solid | ⟨before, separator, after, split, solid, isBlank⟩
    · have ⟨isWord, isText⟩ := ofSolid solid member
      exact ⟨isWord, isText ▸ infix_rfl⟩
    · rw [split, words_append_blank isBlank, mem_append] at member
      rw [split, length_append, length_cons] at length
      rw [split]
      rcases member with first | later
      · have ⟨isWord, isBefore⟩ := ofSolid solid first
        exact ⟨isWord, isBefore ▸ (prefix_append before _).isInfix⟩
      · have ⟨isWord, inside⟩ := ih after.length (by omega) rfl word later
        exact ⟨isWord, inside.trans ((suffix_cons separator after).trans
          (suffix_append before _)).isInfix⟩

theorem isWord_of_mem (member : word ∈ words blank text) : IsWord blank word :=
  (isWord_and_infix_of_mem word member).1

theorem mem_of_mem_words {character : α} (member : word ∈ words blank text)
    (inWord : character ∈ word) : character ∈ text :=
  (isWord_and_infix_of_mem word member).2.subset inWord

/-! ### Joining -/

theorem spaced_cons_cons (first second : List α) (rest : List (List α)) :
    spaced space (first :: second :: rest) = first ++ space :: spaced space (second :: rest) := by
  simp [spaced]

@[simp] theorem spaced_singleton (word : List α) : spaced space [word] = word := by
  simp [spaced]

theorem words_spaced (isBlank : blank space = true) :
    ∀ {texts : List (List α)}, (∀ word ∈ texts, IsWord blank word) →
      words blank (spaced space texts) = texts
  | [], _ => rfl
  | [word], areWords => by
    rw [spaced_singleton]
    exact words_of_isWord (areWords word mem_cons_self)
  | first :: second :: rest, areWords => by
    rw [spaced_cons_cons, words_append_blank isBlank,
      words_of_isWord (areWords first mem_cons_self),
      words_spaced isBlank fun word member => areWords word (mem_cons_of_mem first member)]
    rfl

theorem spaced_append {left right : List (List α)} (someLeft : left ≠ []) (someRight : right ≠ []) :
    spaced space (left ++ right) = spaced space left ++ space :: spaced space right := by
  induction left with
  | nil => exact absurd rfl someLeft
  | cons first rest ih =>
    cases rest with
    | nil =>
      have ⟨second, others, isRight⟩ := exists_cons_of_ne_nil someRight
      rw [isRight, singleton_append, spaced_cons_cons, spaced_singleton]
    | cons second others =>
      rw [cons_append, cons_append, spaced_cons_cons, spaced_cons_cons, ← cons_append,
        ih (cons_ne_nil _ _), append_assoc, cons_append]

variable {texts : List (List α)}

theorem mem_spaced {character : α} (member : character ∈ spaced space texts) :
    character = space ∨ ∃ word ∈ texts, character ∈ word := by
  induction texts with
  | nil => exact absurd member not_mem_nil
  | cons first rest ih =>
    cases rest with
    | nil =>
      rw [spaced_singleton] at member
      exact .inr ⟨first, mem_cons_self, member⟩
    | cons second others =>
      rw [spaced_cons_cons, mem_append, mem_cons] at member
      rcases member with inFirst | isSpace | inRest
      · exact .inr ⟨first, mem_cons_self, inFirst⟩
      · exact .inl isSpace
      · exact (ih inRest).imp_right fun ⟨word, inTexts, inWord⟩ =>
          ⟨word, mem_cons_of_mem first inTexts, inWord⟩

theorem exists_head_spaced {first : List α} (isWord : IsWord blank first) (rest : List (List α)) :
    ∃ character after, spaced space (first :: rest) = character :: after
      ∧ blank character = false := by
  have ⟨character, others, isFirst⟩ := exists_cons_of_ne_nil isWord.nonempty
  have solid := isWord.solid character (isFirst ▸ mem_cons_self)
  cases rest with
  | nil => exact ⟨character, others, by rw [spaced_singleton, isFirst], solid⟩
  | cons second others' =>
    exact ⟨character, others ++ space :: spaced space (second :: others'),
      by rw [spaced_cons_cons, isFirst, cons_append], solid⟩

theorem tight_spaced (areWords : ∀ word ∈ texts, IsWord blank word) :
    Tight blank (spaced space texts) := by
  induction texts with
  | nil => exact ⟨nofun, nofun⟩
  | cons first rest ih =>
    have firstWord := areWords first mem_cons_self
    have ⟨character, after, starts, solid⟩ := @exists_head_spaced _ _ space _ firstWord rest
    refine ⟨?_, ?_⟩
    · rw [starts]
      intro head isHead
      rw [← Option.some.inj isHead]
      exact solid
    · cases rest with
      | nil =>
        rw [spaced_singleton]
        exact fun last isLast => firstWord.solid last (mem_of_getLast? isLast)
      | cons second others =>
        have restWords := fun word member => areWords word (mem_cons_of_mem first member)
        have ⟨next, later, startsRest, _⟩ :=
          @exists_head_spaced _ _ space _ (restWords second mem_cons_self) others
        have lastOfRest := (ih restWords).2
        rw [spaced_cons_cons, getLast?_append_cons]
        rw [startsRest] at lastOfRest ⊢
        rw [getLast?_cons_cons]
        exact lastOfRest

theorem single_spaced (areWords : ∀ word ∈ texts, IsWord blank word) :
    List.IsChain (fun first second => blank first = false ∨ blank second = false)
      (spaced space texts) := by
  have ofSolid : ∀ {word : List α}, Solid blank word →
      List.IsChain (fun first second => blank first = false ∨ blank second = false) word := by
    intro word solid
    apply isChain_iff_forall_rel_of_append_cons_cons.2
    intro first second before after split
    apply Or.inl
    apply solid
    rw [split]
    exact mem_append_right _ mem_cons_self
  induction texts with
  | nil => exact .nil
  | cons first rest ih =>
    have firstSolid := (areWords first mem_cons_self).solid
    cases rest with
    | nil =>
      rw [spaced_singleton]
      exact ofSolid firstSolid
    | cons second others =>
      have restWords := fun word member => areWords word (mem_cons_of_mem first member)
      have ⟨next, later, starts, solid⟩ :=
        @exists_head_spaced _ _ space _ (restWords second mem_cons_self) others
      have restChain := ih restWords
      rw [starts] at restChain
      rw [spaced_cons_cons, starts]
      refine (ofSolid firstSolid).append (.cons_cons (.inr solid) restChain) ?_
      intro last isLast _ _
      exact .inl (firstSolid last (mem_of_getLast? isLast))

theorem spaced_append_last (texts : List (List α)) (last ending : List α) :
    spaced space (texts ++ [last ++ ending]) = spaced space (texts ++ [last]) ++ ending := by
  by_cases none : texts = []
  · rw [none, nil_append, nil_append, spaced_singleton, spaced_singleton]
  · rw [spaced_append none (cons_ne_nil _ _), spaced_append none (cons_ne_nil _ _),
      spaced_singleton, spaced_singleton, append_assoc, cons_append]

theorem suffix_spaced_iff {ending last : List α} (isBlank : blank space = true)
    (solid : Solid blank ending) :
    ending <:+ spaced space (texts ++ [last]) ↔ ending <:+ last := by
  by_cases none : texts = []
  · rw [none, nil_append, spaced_singleton]
  rw [spaced_append none (cons_ne_nil _ _), spaced_singleton]
  constructor
  · intro ends
    have separated : space :: last <:+ spaced space texts ++ space :: last := suffix_append _ _
    have noSpace : space ∉ ending := by
      intro member
      have notBlank := solid space member
      rw [isBlank] at notBlank
      cases notBlank
    rcases suffix_or_suffix_of_suffix ends separated with inside | whole
    · rcases suffix_cons_iff.1 inside with same | short
      · exact absurd (same ▸ mem_cons_self) noSpace
      · exact short
    · exact absurd (whole.subset mem_cons_self) noSpace
  · intro ends
    exact ends.trans ((suffix_cons space last).trans (suffix_append _ _))

/-! ### Characters that become texts -/

theorem words_flatMap {image : α → List α}
    (kept : ∀ character, blank character = true → image character = [character])
    (becomes : ∀ character, blank character = false → IsWord blank (image character))
    (text : List α) :
    words blank (text.flatMap image) = (words blank text).map fun word => word.flatMap image := by
  have ofSolid : ∀ {word : List α}, Solid blank word → Solid blank (word.flatMap image)
      ∧ (word ≠ [] → word.flatMap image ≠ []) := by
    intro word solid
    constructor
    · intro character member
      have ⟨origin, inWord, inImage⟩ := mem_flatMap.1 member
      exact (becomes origin (solid origin inWord)).solid character inImage
    · intro some
      have ⟨first, rest, isWord⟩ := exists_cons_of_ne_nil some
      rw [isWord] at solid ⊢
      rw [flatMap_cons]
      exact append_ne_nil_of_left_ne_nil (becomes first (solid first mem_cons_self)).nonempty _
  have onSolid : ∀ {word : List α}, Solid blank word →
      words blank (word.flatMap image) = (words blank word).map fun word => word.flatMap image := by
    intro word solid
    by_cases none : word = []
    · rw [none]
      rfl
    · rw [words_of_isWord ⟨none, solid⟩, words_of_isWord ⟨(ofSolid solid).2 none, (ofSolid solid).1⟩]
      rfl
  induction length : text.length using Nat.strong_induction_on generalizing text with
  | h size ih =>
    rcases @solid_or_first_blank _ blank text with solid | ⟨before, separator, after, split, solid, isBlank⟩
    · exact onSolid solid
    · rw [split, length_append, length_cons] at length
      rw [split, flatMap_append, flatMap_cons, kept separator isBlank,
        singleton_append, words_append_blank isBlank, words_append_blank isBlank,
        onSolid solid, ih after.length (by omega) after rfl, map_append]

theorem spaced_flatMap {image : α → List α} (kept : image space = [space]) :
    ∀ texts : List (List α), (spaced space texts).flatMap image
      = spaced space (texts.map fun word => word.flatMap image)
  | [] => rfl
  | [word] => by simp
  | first :: second :: rest => by
    have later := spaced_flatMap kept (second :: rest)
    rw [spaced_cons_cons, flatMap_append, flatMap_cons, kept, later, singleton_append]
    exact (spaced_cons_cons _ _ _).symm

/-! ### Collapsing -/

/-- `previous` says whether the character before was blank. -/
def collapse (blank : α → Bool) (space : α) (previous : Bool) : List α → List α
  | [] => []
  | character :: rest =>
    if blank character then
      if previous then collapse blank space true rest else space :: collapse blank space true rest
    else
      character :: collapse blank space false rest

theorem collapse_append_solid (solid : Solid blank word) (some : word ≠ []) (previous : Bool)
    (rest : List α) :
    collapse blank space previous (word ++ rest) = word ++ collapse blank space false rest := by
  induction word generalizing previous with
  | nil => exact absurd rfl some
  | cons character others ih =>
    have notBlank := solid character mem_cons_self
    rw [cons_append, collapse, notBlank, if_neg Bool.false_ne_true, cons_append]
    by_cases none : others = []
    · rw [none]
      rfl
    · rw [ih (fun other member =>
        solid other (mem_cons_of_mem character member)) none]

theorem exists_collapse (text : List α) :
    ∃ after, (after = [] ∨ after = [space] ∧ words blank text ≠ [])
      ∧ collapse blank space true text = spaced space (words blank text) ++ after := by
  induction length : text.length using Nat.strong_induction_on generalizing text with
  | h size ih =>
    rcases @solid_or_first_blank _ blank text with solid | ⟨word, separator, rest, split, solid, isBlank⟩
    · by_cases none : text = []
      · rw [none]
        exact ⟨[], .inl rfl, rfl⟩
      · refine ⟨[], .inl rfl, ?_⟩
        rw [words_of_isWord ⟨none, solid⟩, spaced_singleton]
        have whole := @collapse_append_solid _ _ space _ solid none true []
        rwa [append_nil] at whole
    · rw [split, length_append, length_cons] at length
      have ⟨after, shape, collapsed⟩ := ih rest.length (by omega) rest rfl
      by_cases none : word = []
      · refine ⟨after, ?_, ?_⟩
        · rwa [split, none, nil_append, words_cons_blank isBlank]
        · rw [split, none, nil_append, words_cons_blank isBlank, collapse, isBlank,
            if_pos rfl, if_pos rfl, collapsed]
      · have starts : collapse blank space true text
            = word ++ space :: (spaced space (words blank rest) ++ after) := by
          rw [split, collapse_append_solid solid none, collapse, isBlank,
            if_pos rfl, if_neg Bool.false_ne_true, collapsed]
        have allWords : words blank text = word :: words blank rest := by
          rw [split, words_append_blank isBlank, words_of_isWord ⟨none, solid⟩]
          rfl
        rw [starts, allWords]
        cases others : words blank rest with
        | nil =>
          rw [others] at shape
          have noMore := shape.resolve_right (fun both => both.2 rfl)
          refine ⟨[space], .inr ⟨rfl, cons_ne_nil _ _⟩, ?_⟩
          rw [noMore, spaced_singleton]
          rfl
        | cons second more =>
          refine ⟨after, shape.imp_right fun both => ⟨both.1, cons_ne_nil _ _⟩, ?_⟩
          rw [spaced_cons_cons, append_assoc, cons_append]

theorem trim_collapse (isBlank : blank space = true) (text : List α) :
    Trim.trim blank (collapse blank space false text) = spaced space (words blank text) := by
  have oneSpace : ∀ character ∈ [space], blank character = true := by
    intro character member
    rw [mem_singleton.1 member]
    exact isBlank
  have ⟨after, shape, collapsed⟩ := @exists_collapse _ blank space text
  have starts : ∃ before, (∀ character ∈ before, blank character = true) ∧
      collapse blank space false text = before ++ collapse blank space true text := by
    cases text with
    | nil => exact ⟨[], forall_mem_nil _, rfl⟩
    | cons character rest =>
      unfold collapse
      cases blank character with
      | true => exact ⟨[space], oneSpace, rfl⟩
      | false => exact ⟨[], forall_mem_nil _, rfl⟩
  have ⟨before, blankBefore, split⟩ := starts
  rw [split, collapsed]
  apply Trim.trim_of_tight (tight_spaced fun word member => isWord_of_mem member) blankBefore
  rcases shape with none | ⟨one, _⟩
  · rw [none]
    exact forall_mem_nil _
  · rw [one]
    exact oneSpace

end Clepsydra.Library.Words
