import Clepsydra.Vault.Rewriter

/-!
Owns: the parts of an inline link's source, and what the rewriting of links is meant to touch.

Proves: exactly for which links the rewriting replaces the destination and nothing else.
-/

namespace Clepsydra.Vault.Rewriter

open Library List Option
open Library.Splice (Edit)

/-! ### Inline links -/

def IsFiller (text : List Char) : Prop := ∀ character ∈ text, character ∉ ['[', ']', '(', ')']

structure LinkShape where
  label : List Char
  lead : List Char
  destination : List Char
  gap : List Char
  title : List Char
  trail : List Char
  filled : IsFiller lead ∧ IsFiller gap ∧ IsFiller trail
  quoted : ∀ first ∈ title.head?, first ≠ ')'

namespace LinkShape

variable (shape : LinkShape)

def opening : List Char := '[' :: (shape.label ++ [']', '('])

def closing : List Char := shape.gap ++ (shape.title ++ (shape.trail ++ [')']))

def source : List Char := shape.opening ++ (shape.lead ++ (shape.destination ++ shape.closing))

def start : Nat := shape.opening.length + shape.lead.length

def stop : Nat := shape.start + shape.destination.length

def Bare : Prop := shape.lead = [] ∧ shape.gap = [] ∧ shape.title = [] ∧ shape.trail = []

end LinkShape

variable {text : List Char}

theorem lastOccurrence_eq_none_iff {pattern : List Char} (nonempty : pattern ≠ []) :
    lastOccurrence pattern text = none ↔ ¬pattern <:+: text := by
  induction text with
  | nil => simp [lastOccurrence, nonempty]
  | cons first rest ih =>
    rw [lastOccurrence, infix_cons_iff, not_or, ← ih]
    cases later : lastOccurrence pattern rest with
    | some position => simp
    | none =>
      rw [← isPrefixOf_iff_prefix]
      simp

theorem lastOccurrence_eq_some_iff {first : Char} {others : List Char} {position : Nat} :
    lastOccurrence (first :: others) text = some position ↔
      ∃ before after, text = before ++ first :: (others ++ after) ∧ before.length = position
        ∧ ¬(first :: others) <:+: others ++ after := by
  have nonempty : first :: others ≠ [] := cons_ne_nil first others
  induction text generalizing position with
  | nil =>
    constructor
    · exact fun found => nomatch found
    · rintro ⟨before, after, split, -⟩
      simp at split
  | cons head rest ih =>
    rw [lastOccurrence]
    cases later : lastOccurrence (first :: others) rest with
    | some found =>
      have ⟨before, after, split, length, last⟩ := ih.1 later
      constructor
      · intro same
        refine ⟨head :: before, after, by rw [split, cons_append], ?_, last⟩
        rw [length_cons, length]
        exact some.inj same
      · rintro ⟨before', after', split', length', last'⟩
        cases before' with
        | nil =>
          -- the later occurrence would stand in what follows
          exfalso
          apply last'
          rw [← (List.cons.inj split').2, split]
          exact ⟨before, after, by simp⟩
        | cons head' before' =>
          have sameRest := ih.2 ⟨before', after', (List.cons.inj split').2, rfl, last'⟩
          rw [later] at sameRest
          rw [some.inj sameRest, ← length', length_cons]
    | none =>
      have absent := (lastOccurrence_eq_none_iff nonempty).1 later
      dsimp only
      constructor
      · intro found
        split_ifs at found with here
        have ⟨after, split⟩ := isPrefixOf_iff_prefix.1 here
        refine ⟨[], after, by rw [← split]; simp, some.inj found, ?_⟩
        rw [cons_append] at split
        rw [(List.cons.inj split).2]
        exact absent
      · rintro ⟨before', after', split', length', last'⟩
        cases before' with
        | nil =>
          have here : (first :: others).isPrefixOf (head :: rest) = true := by
            rw [List.isPrefixOf_iff_prefix, split']
            exact ⟨after', by simp⟩
          rw [if_pos here, ← length']
          rfl
        | cons head' before' =>
          exfalso
          apply absent
          rw [(List.cons.inj split').2]
          exact ⟨before', after', by simp⟩

theorem findIdx?_close_iff {position : Nat} :
    text.findIdx? (· = ')') = some position ↔
      ∃ url after, text = url ++ ')' :: after ∧ url.length = position ∧ ')' ∉ url := by
  induction text generalizing position with
  | nil => simp
  | cons first rest ih =>
    rw [findIdx?_cons]
    by_cases closes : first = ')'
    · rw [if_pos (by simpa using closes)]
      constructor
      · intro found
        exact ⟨[], rest, by rw [closes, nil_append], some.inj found, not_mem_nil⟩
      · rintro ⟨url, after, split, length, absent⟩
        cases url with
        | nil => exact congrArg some length
        | cons head others =>
          rw [← (List.cons.inj split).1, closes] at absent
          exact absurd mem_cons_self absent
    · rw [if_neg (by simpa using closes), map_eq_some_iff]
      constructor
      · rintro ⟨earlier, found, isPosition⟩
        have ⟨url, after, split, length, absent⟩ := ih.1 found
        refine ⟨first :: url, after, by rw [split, cons_append], ?_, ?_⟩
        · rw [length_cons, length]
          exact isPosition
        · rw [mem_cons, not_or]
          exact ⟨Ne.symm closes, absent⟩
      · rintro ⟨url, after, split, length, absent⟩
        cases url with
        | nil => exact absurd (List.cons.inj split).1 closes
        | cons head others =>
          rw [mem_cons, not_or] at absent
          exact ⟨others.length, ih.2
            ⟨others, after, (List.cons.inj split).2, rfl, absent.2⟩, length⟩

theorem destinationRange_eq_some_iff {range : Nat × Nat} :
    destinationRange text = some range ↔
      ∃ before url after, text = before ++ ']' :: '(' :: (url ++ ')' :: after) ∧ ')' ∉ url
        ∧ ¬[']', '('] <:+: url ++ ')' :: after
        ∧ range = (before.length + 2, before.length + 2 + url.length) := by
  have dropped : ∀ before after : List Char,
      (before ++ ']' :: (['('] ++ after)).drop (before.length + 2) = after := by
    intro before after
    rw [drop_append, drop_eq_nil_of_le (by omega)]
    simp
  unfold destinationRange
  constructor
  · intro found
    have ⟨position, isLast, rest⟩ := bind_eq_some_iff.1 found
    have ⟨length, isLength, same⟩ := bind_eq_some_iff.1 rest
    have ⟨before, following, split, isPosition, last⟩ := lastOccurrence_eq_some_iff.1 isLast
    rw [split, ← isPosition, dropped] at isLength
    have ⟨url, after, isFollowing, isUrl, absent⟩ := findIdx?_close_iff.1 isLength
    refine ⟨before, url, after, ?_, absent, ?_, ?_⟩
    · rw [split, isFollowing]
      rfl
    · rw [← isFollowing]
      exact fun inside => last (inside.trans (suffix_cons '(' following).isInfix)
    · rw [← some.inj same, isPosition, isUrl]
  · rintro ⟨before, url, after, split, absent, last, isRange⟩
    have isLast : lastOccurrence [']', '('] text = some before.length := by
      apply lastOccurrence_eq_some_iff.2
      refine ⟨before, url ++ ')' :: after, split, rfl, ?_⟩
      intro inside
      rcases infix_cons_iff.1 inside with begins | later
      · exact absurd (cons_prefix_cons.1 begins).1 (by decide)
      · exact last later
    apply bind_eq_some_iff.2
    refine ⟨before.length, isLast, ?_⟩
    apply bind_eq_some_iff.2
    refine ⟨url.length, ?_, congrArg some isRange.symm⟩
    have whole := dropped before (url ++ ')' :: after)
    rw [split]
    show List.findIdx? _ ((before ++ ']' :: (['('] ++ (url ++ ')' :: after))).drop _) = _
    rw [whole]
    exact findIdx?_close_iff.2 ⟨url, after, rfl, rfl, absent⟩

theorem destinationRange_eq_none_iff :
    destinationRange text = none ↔ ∀ before after, text = before ++ ']' :: '(' :: after →
      ¬[']', '('] <:+: after → ')' ∉ after := by
  constructor
  · intro nothing before after split last closes
    have ⟨url, rest, isAfter, absent⟩ := eq_append_cons_of_mem closes
    have found : destinationRange text = some (before.length + 2, before.length + 2 + url.length) :=
      destinationRange_eq_some_iff.2
        ⟨before, url, rest, by rw [split, isAfter], absent, isAfter ▸ last, rfl⟩
    rw [nothing] at found
    exact nomatch found
  · intro never
    cases found : destinationRange text with
    | none => rfl
    | some range =>
      have ⟨before, url, after, split, _, last, _⟩ := destinationRange_eq_some_iff.1 found
      exact absurd (mem_append_right url mem_cons_self) (never before _ split last)

namespace LinkShape

variable (shape : LinkShape)

theorem source_eq : shape.source = ('[' :: shape.label)
      ++ ']' :: '(' :: (shape.lead ++ (shape.destination ++ shape.closing)) := by
  simp [source, opening]

theorem opening_le_of_found {range : Nat × Nat}
    (found : destinationRange shape.source = some range) : shape.opening.length ≤ range.1 := by
  have ⟨before, url, after, split, _, last, isRange⟩ := destinationRange_eq_some_iff.1 found
  have length : shape.opening.length = shape.label.length + 3 := by
    simp [opening]
  rw [isRange, length]
  by_contra early
  rw [source_eq] at split
  rcases append_eq_append_iff.1 split with ⟨more, isBefore, _⟩ | ⟨more, isLabel, tail⟩
  · have longer := congrArg List.length isBefore
    simp only [length_append, length_cons] at longer
    dsimp only at early
    omega
  · cases more with
    | nil =>
      have same := congrArg List.length isLabel
      simp only [length_append, length_cons, length_nil] at same
      dsimp only at early
      omega
    | cons first more =>
      -- the bracket of the link would stand behind the last one
      cases more with
      | nil => exact absurd (List.cons.inj (List.cons.inj tail).2).1 (by decide)
      | cons second more =>
        apply last
        rw [(List.cons.inj (List.cons.inj tail).2).2]
        exact ⟨more, shape.lead ++ (shape.destination ++ shape.closing), by simp⟩

/-- It stands alone between the parentheses and has none of the brackets that are looked for. -/
theorem found_iff : destinationRange shape.source = some (shape.start, shape.stop) ↔
    shape.Bare ∧ ')' ∉ shape.destination ∧ ¬[']', '('] <:+: shape.destination := by
  have openingLength : shape.opening.length = shape.label.length + 3 := by
    simp [opening]
  rw [destinationRange_eq_some_iff]
  constructor
  · rintro ⟨before, url, after, split, absent, last, isRange⟩
    have ⟨isStart, isStop⟩ := Prod.mk.inj isRange
    have urlLength : url.length = shape.destination.length := by
      unfold stop at isStop
      omega
    have whole : (shape.opening ++ shape.lead) ++ (shape.destination ++ shape.closing)
        = (before ++ [']', '(']) ++ (url ++ ')' :: after) := by
      rw [append_assoc, append_assoc]
      exact split
    have ⟨atStart, atEnd⟩ := append_inj whole (by
      rw [length_append, length_append]
      exact isStart)
    have ⟨isUrl, isClosing⟩ := append_inj atEnd urlLength.symm
    have noLead : shape.lead = [] := by
      rcases eq_nil_or_concat shape.lead with none | ⟨earlier, final, isLead⟩
      · exact none
      · rw [concat_eq_append] at isLead
        have pair : before ++ [']', '('] = (before ++ [']']) ++ ['('] := by simp
        rw [isLead, ← append_assoc, pair] at atStart
        have isFinal := singleton_inj.1 (append_inj' atStart rfl).2
        have filler := shape.filled.1 final (isLead ▸ mem_append_right _ mem_cons_self)
        exact absurd (isFinal ▸ filler) (by decide)
    have noFiller : ∀ {text rest : List Char}, IsFiller text → text ++ rest = ')' :: after →
        text = [] := by
      intro text rest filler same
      cases text with
      | nil => rfl
      | cons first others =>
        have isFirst := (List.cons.inj same).1
        exact absurd (isFirst ▸ filler first mem_cons_self) (by decide)
    unfold closing at isClosing
    have noGap := noFiller shape.filled.2.1 isClosing
    rw [noGap, nil_append] at isClosing
    have noTitle : shape.title = [] := by
      cases isTitle : shape.title with
      | nil => rfl
      | cons first others =>
        rw [isTitle] at isClosing
        exact absurd (List.cons.inj isClosing).1 (shape.quoted first (by rw [isTitle]; rfl))
    rw [noTitle, nil_append] at isClosing
    have noTrail := noFiller shape.filled.2.2 isClosing
    refine ⟨⟨noLead, noGap, noTitle, noTrail⟩, isUrl ▸ absent, ?_⟩
    intro inside
    exact last ((isUrl ▸ inside).trans (prefix_append url _).isInfix)
  · rintro ⟨⟨noLead, noGap, noTitle, noTrail⟩, absent, last⟩
    refine ⟨'[' :: shape.label, shape.destination, [], ?_, absent, ?_, ?_⟩
    · rw [source_eq, closing, noLead, noGap, noTitle, noTrail]
      rfl
    · intro inside
      rcases (infix_append_cons_iff (by decide) _ _).1 inside with early | late
      · exact last early
      · exact absurd late (by decide)
    · unfold stop start
      rw [noLead, openingLength]
      simp only [length_cons, length_nil, Nat.add_zero]

end LinkShape

/-! ### What the parser reports -/

def Outside (shape : LinkShape) (link other : Located) : Prop :=
  other.stop ≤ link.start ∨ link.stop ≤ other.start
    ∨ other.stop ≤ link.start + shape.label.length + 1

/-- Texts and inline links follow each other; what else is no part of a link stands in its label. -/
def LiesApart (shapes : Located → LinkShape) (first second : Located) : Prop :=
  match first.event, second.event with
  | .text, .text => first.stop ≤ second.start
  | .startLink .inline _, .startLink .inline _ => first.stop ≤ second.start
  | .startLink .inline _, .text | .startLink .inline _, .startLink _ _ =>
    Outside (shapes first) first second
  | .text, .startLink .inline _ | .startLink _ _, .startLink .inline _ =>
    Outside (shapes second) second first
  | _, _ => True

/-- Each source is where it is said to be, and that of an inline link has its parts. -/
structure Reported (content : List Char) (reads : List Char → Option (List Char))
    (shapes : Located → LinkShape) (events : List Located) : Prop where
  bounds : ∀ located ∈ events, located.start ≤ located.stop ∧ located.stop ≤ content.length
  sources : ∀ located ∈ events, ∀ destUrl, located.event = .startLink .inline destUrl →
    located.source content = (shapes located).source
      ∧ reads (shapes located).destination = some destUrl
  apart : events.Pairwise (LiesApart shapes)

/-! ### What rewriting is meant to touch -/

section Targets

variable (content : List Char) (wikilinkReplacements markdownReplacements : Replacements)
  (reads : List Char → Option (List Char)) (shapes : Located → LinkShape)
  (parse : List Char → List Located)

def visibleEvents : List Located := outsideBlocks false false (parse content)

def EditsWikilink (edit : Edit Char) : Prop :=
  ∃ located ∈ visibleEvents content parse, located.event = .text
    ∧ ∃ wikilink ∈ wikilinks (located.source content),
      wikilinkReplacements.newTarget wikilink.target ≠ none
        ∧ edit.start = located.start + wikilink.start ∧ edit.stop = located.start + wikilink.stop

def EditsDestination (edit : Edit Char) : Prop :=
  ∃ located ∈ visibleEvents content parse, ∃ destUrl, located.event = .startLink .inline destUrl
    ∧ markdownReplacements.newTarget destUrl ≠ none
    ∧ edit.start = located.start + (shapes located).start
    ∧ edit.stop = located.start + (shapes located).stop

/-- Only wikilinks and destinations of inline links are replaced. -/
structure TouchesTargets : Prop where
  frame : ∀ edit ∈ collectEdits content wikilinkReplacements markdownReplacements (parse content),
    EditsWikilink content wikilinkReplacements parse edit
      ∨ EditsDestination content markdownReplacements shapes parse edit
  renewed : ∀ located ∈ visibleEvents content parse, ∀ destUrl newUrl,
    located.event = .startLink .inline destUrl →
    markdownReplacements.newTarget destUrl = some newUrl →
    ∃ raw, ⟨located.start + (shapes located).start, located.start + (shapes located).stop, raw⟩
        ∈ collectEdits content wikilinkReplacements markdownReplacements (parse content)
      ∧ reads raw = some newUrl
      ∧ Splice.replaceRange (located.source content)
          ⟨(shapes located).start, (shapes located).stop, raw⟩
        = { shapes located with destination := raw }.source
  disjoint : (collectEdits content wikilinkReplacements markdownReplacements
      (parse content)).Pairwise fun first second =>
    first.stop ≤ second.start ∨ second.stop ≤ first.start
  spliced : rewriteLinksInContent content wikilinkReplacements markdownReplacements parse
    = Splice.splice content (Splice.lastFirst
      (collectEdits content wikilinkReplacements markdownReplacements (parse content)))

/-- The destination stands alone in its parentheses, and the new one can stand there; no other
link has a `)` behind its last `](`. -/
structure PlainTargets : Prop where
  inline : ∀ located ∈ visibleEvents content parse, ∀ destUrl newUrl,
    located.event = .startLink .inline destUrl →
    markdownReplacements.newTarget destUrl = some newUrl →
    (shapes located).Bare ∧ ')' ∉ (shapes located).destination
      ∧ ¬[']', '('] <:+: (shapes located).destination ∧ reads newUrl = some newUrl
  others : ∀ located ∈ visibleEvents content parse, ∀ linkType destUrl,
    located.event = .startLink linkType destUrl → linkType ≠ .inline →
    markdownReplacements.newTarget destUrl ≠ none →
    ∀ before after, located.source content = before ++ ']' :: '(' :: after →
      ¬[']', '('] <:+: after → ')' ∉ after

end Targets

section Touching

variable {content : List Char} {wikilinkReplacements markdownReplacements : Replacements}
  {reads : List Char → Option (List Char)} {shapes : Located → LinkShape}
  {parse : List Char → List Located}

theorem LinkShape.replaceRange_source (shape : LinkShape) (raw : List Char) :
    Splice.replaceRange shape.source ⟨shape.start, shape.stop, raw⟩
      = { shape with destination := raw }.source := by
  have atStart : (shape.opening ++ shape.lead).length = shape.start := length_append
  have atStop : ((shape.opening ++ shape.lead) ++ shape.destination).length = shape.stop := by
    rw [length_append, atStart]
    rfl
  have split : shape.source
      = (shape.opening ++ shape.lead) ++ (shape.destination ++ shape.closing) := by
    rw [LinkShape.source, append_assoc]
  have before : shape.source.take shape.start = shape.opening ++ shape.lead := by
    rw [split, take_left' atStart]
  have after : shape.source.drop shape.stop = shape.closing := by
    rw [split, ← append_assoc, drop_left' atStop]
  show shape.source.take shape.start ++ raw ++ shape.source.drop shape.stop
    = shape.opening ++ (shape.lead ++ (raw ++ shape.closing))
  rw [before, after, append_assoc, append_assoc]

theorem Reported.parsed {events : List Located} (reported : Reported content reads shapes events) :
    Parsed content events := by
  have besideOf : ∀ {link text : Located} {destUrl : List Char}, link ∈ events →
      link.event = .startLink .inline destUrl → Outside (shapes link) link text →
      Beside content link text := by
    intro link text destUrl among isLink outside
    refine outside.imp_right (Or.imp_right fun inLabel range found => ?_)
    rw [(reported.sources link among destUrl isLink).1] at found
    have later := (shapes link).opening_le_of_found found
    simp only [LinkShape.opening, length_cons, length_append, length_nil] at later
    omega
  refine ⟨reported.bounds, reported.apart.imp_of_mem ?_⟩
  intro first second firstAmong secondAmong apart
  unfold Separate
  unfold LiesApart at apart
  split
  · rename_i firstText secondText
    rwa [firstText, secondText] at apart
  · rename_i firstLink secondLink
    rwa [firstLink, secondLink] at apart
  · rename_i firstLink secondText
    rw [firstLink, secondText] at apart
    exact besideOf firstAmong firstLink apart
  · rename_i firstText secondLink
    rw [firstText, secondLink] at apart
    exact besideOf secondAmong secondLink apart
  · exact trivial

/-! ### Where edits lie -/

theorem mem_of_visible {located : Located} (among : located ∈ visibleEvents content parse) :
    located ∈ parse content :=
  (outsideBlocks_sublist false false (parse content)).subset among

variable {destUrl : List Char}

theorem Reported.destination_within (reported : Reported content reads shapes (parse content))
    {located : Located} (among : located ∈ visibleEvents content parse)
    (isInline : located.event = .startLink .inline destUrl) :
    (shapes located).label.length + 1 < (shapes located).start
      ∧ (shapes located).start ≤ (shapes located).stop
      ∧ located.start + (shapes located).stop < located.stop := by
  have inside := mem_of_visible among
  have bounds := reported.bounds located inside
  have length := congrArg List.length (reported.sources located inside destUrl isInline).1
  rw [length_source bounds.2] at length
  simp only [LinkShape.source, LinkShape.closing, length_append, length_cons, length_nil] at length
  simp only [LinkShape.stop, LinkShape.start, LinkShape.opening, length_append,
    length_cons, length_nil] at length ⊢
  omega

theorem either_of_pairwise {α : Type} {related : α → α → Prop} {list : List α}
    (pairwise : list.Pairwise related) {first second : α} (firstAmong : first ∈ list)
    (secondAmong : second ∈ list) :
    first = second ∨ related first second ∨ related second first := by
  induction pairwise with
  | nil => exact nomatch firstAmong
  | cons before _ ih =>
    rcases mem_cons.1 firstAmong with rfl | firstLater
    · rcases mem_cons.1 secondAmong with rfl | secondLater
      · exact .inl rfl
      · exact .inr (.inl (before _ secondLater))
    · rcases mem_cons.1 secondAmong with rfl | secondLater
      · exact .inr (.inr (before _ firstLater))
      · exact ih firstLater secondLater

variable (reported : Reported content reads shapes (parse content))

include reported

theorem Reported.pair {first second : Located} (firstAmong : first ∈ visibleEvents content parse)
    (secondAmong : second ∈ visibleEvents content parse) :
    first = second ∨ LiesApart shapes first second ∨ LiesApart shapes second first :=
  either_of_pairwise (reported.apart.sublist (outsideBlocks_sublist false false (parse content)))
    firstAmong secondAmong

theorem Reported.outside {link other : Located} (linkAmong : link ∈ visibleEvents content parse)
    (otherAmong : other ∈ visibleEvents content parse)
    (isInline : link.event = .startLink .inline destUrl) (different : other ≠ link)
    (isOther : other.event = .text
      ∨ ∃ linkType otherUrl, other.event = .startLink linkType otherUrl) :
    Outside (shapes link) link other := by
  have apart := (reported.pair linkAmong otherAmong).resolve_left (Ne.symm different)
  rcases isOther with isText | ⟨linkType, otherUrl, isLink⟩
  · rcases apart with before | after
    · simpa only [LiesApart, isInline, isText] using before
    · simpa only [LiesApart, isInline, isText] using after
  · by_cases otherInline : linkType = .inline
    · rw [otherInline] at isLink
      rcases apart with before | after
      · simp only [LiesApart, isInline, isLink] at before
        exact .inr (.inl before)
      · simp only [LiesApart, isInline, isLink] at after
        exact .inl after
    · rcases apart with before | after
      · cases linkType with
        | inline => exact absurd rfl otherInline
        | _ => simpa only [LiesApart, isInline, isLink] using before
      · cases linkType with
        | inline => exact absurd rfl otherInline
        | _ => simpa only [LiesApart, isInline, isLink] using after

theorem Reported.not_destination {link other : Located} {edit : Edit Char}
    (linkAmong : link ∈ visibleEvents content parse)
    (otherAmong : other ∈ visibleEvents content parse)
    (isInline : link.event = .startLink .inline destUrl) (different : other ≠ link)
    (ofOther : edit ∈ editsOf content wikilinkReplacements markdownReplacements other) :
    ¬(edit.start = link.start + (shapes link).start
      ∧ edit.stop = link.start + (shapes link).stop) := by
  intro same
  have within := reported.destination_within linkAmong isInline
  have bounds := bounds_of_editsOf (reported.bounds other (mem_of_visible otherAmong)).2 ofOther
  have outside := reported.outside linkAmong otherAmong isInline different
    (event_of_mem_editsOf ofOther)
  unfold Outside at outside
  omega

omit reported

/-! ### Exactly which links -/

variable (plain : PlainTargets content markdownReplacements reads shapes parse)

include plain

theorem PlainTargets.found (reported : Reported content reads shapes (parse content))
    {located : Located} {newUrl : List Char} (among : located ∈ visibleEvents content parse)
    (isInline : located.event = .startLink .inline destUrl)
    (replaced : markdownReplacements.newTarget destUrl = some newUrl) :
    destinationRange (located.source content)
      = some ((shapes located).start, (shapes located).stop) := by
  have ⟨bare, noClose, noBracket, _⟩ :=
    plain.inline located among destUrl newUrl isInline replaced
  rw [(reported.sources located (mem_of_visible among) destUrl isInline).1]
  exact (shapes located).found_iff.2 ⟨bare, noClose, noBracket⟩

theorem PlainTargets.inlineEdits :
    InlineEdits content wikilinkReplacements markdownReplacements
      (visibleEvents content parse) := by
  intro located among linkType destUrl isLink edit member
  by_contra notInline
  have ⟨newUrl, range, replaced, found, _⟩ := (mem_editsOf_link isLink).1 member
  have never := destinationRange_eq_none_iff.2
    (plain.others located among linkType destUrl isLink notInline (by rw [replaced]; nofun))
  rw [never] at found
  exact nomatch found

omit plain

theorem touches_of_plain (reported : Reported content reads shapes (parse content))
    (plain : PlainTargets content markdownReplacements reads shapes parse) :
    TouchesTargets content wikilinkReplacements markdownReplacements reads shapes parse := by
  have inlineEdits : InlineEdits content wikilinkReplacements markdownReplacements
      (outsideBlocks false false (parse content)) := plain.inlineEdits
  refine ⟨?_, ?_, ?_, rewriteLinksInContent_eq reported.parsed inlineEdits⟩
  · intro edit member
    have ⟨located, among, ofLocated⟩ := mem_flatMap.1 member
    rcases event_of_mem_editsOf ofLocated with isText | ⟨linkType, destUrl, isLink⟩
    · obtain ⟨wikilink, inText, newTarget, replaced, rfl⟩ := (mem_editsOf_text isText).1 ofLocated
      exact .inl ⟨located, among, isText, wikilink, inText, by rw [replaced]; nofun, rfl, rfl⟩
    · have isInline := inlineEdits located among linkType destUrl isLink edit ofLocated
      rw [isInline] at isLink
      obtain ⟨newUrl, range, replaced, found, rfl⟩ := (mem_editsOf_link isLink).1 ofLocated
      rw [plain.found reported among isLink replaced] at found
      rw [← some.inj found]
      exact .inr ⟨located, among, destUrl, isLink, by rw [replaced]; nofun, rfl, rfl⟩
  · intro located among destUrl newUrl isInline replaced
    have found := plain.found reported among isInline replaced
    refine ⟨newUrl, ?_, (plain.inline located among destUrl newUrl isInline replaced).2.2.2, ?_⟩
    · exact mem_flatMap.2 ⟨located, among, (mem_editsOf_link isInline).2
        ⟨newUrl, _, replaced, found, rfl⟩⟩
    · rw [(reported.sources located (mem_of_visible among) destUrl isInline).1]
      exact (shapes located).replaceRange_source newUrl
  · exact (pairwise_collectEdits reported.parsed inlineEdits).imp fun apart =>
      apart.imp And.left And.left

theorem plain_of_touches (reported : Reported content reads shapes (parse content))
    (touches : TouchesTargets content wikilinkReplacements markdownReplacements reads shapes
      parse) :
    PlainTargets content markdownReplacements reads shapes parse := by
  constructor
  · intro located among destUrl newUrl isInline replaced
    have ⟨raw, member, isRead, _⟩ :=
      touches.renewed located among destUrl newUrl isInline replaced
    have ⟨other, otherAmong, ofOther⟩ := mem_flatMap.1 member
    have same : other = located := by
      by_contra different
      exact reported.not_destination among otherAmong isInline different ofOther ⟨rfl, rfl⟩
    rw [same] at ofOther
    have ⟨otherUrl, range, alsoReplaced, found, isEdit⟩ := (mem_editsOf_link isInline).1 ofOther
    simp only [Edit.mk.injEq, Nat.add_left_cancel_iff] at isEdit
    have ⟨isStart, isStop, isRaw⟩ := isEdit
    rw [replaced] at alsoReplaced
    rw [← isRaw, ← some.inj alsoReplaced] at isRead
    have isRange : range = ((shapes located).start, (shapes located).stop) :=
      Prod.ext isStart isStop
    rw [isRange, (reported.sources located (mem_of_visible among) destUrl isInline).1] at found
    have ⟨bare, noClose, noBracket⟩ := (shapes located).found_iff.1 found
    exact ⟨bare, noClose, noBracket, isRead⟩
  · intro located among linkType destUrl isLink notInline replaced
    apply destinationRange_eq_none_iff.1
    by_contra some
    have ⟨range, found⟩ := ne_none_iff_exists'.1 some
    have ⟨newUrl, isNew⟩ := ne_none_iff_exists'.1 replaced
    have ofLocated := (@mem_editsOf_link content wikilinkReplacements markdownReplacements located _
      linkType destUrl isLink).2 ⟨newUrl, range, isNew, found, rfl⟩
    rcases touches.frame _ (mem_flatMap.2 ⟨located, among, ofLocated⟩) with
      ⟨text, textAmong, isText, wikilink, inText, named, isStart, isStop⟩
      | ⟨link, linkAmong, linkUrl, isInline, _, isStart, isStop⟩
    · -- the wikilink that stands there has an edit of its own
      have ⟨newTarget, isTarget⟩ := ne_none_iff_exists'.1 named
      have ofText := (@mem_editsOf_text content wikilinkReplacements markdownReplacements text _
        isText).2 ⟨wikilink, inText, newTarget, isTarget, rfl⟩
      have different : located ≠ text := by
        intro same
        rw [same, isText] at isLink
        cases isLink
      have apart := (pairwise_flatMap.1 touches.disjoint).2
      have long : wikilink.start < wikilink.stop := by
        simp only [Wikilink.stop]
        omega
      rcases (either_of_pairwise apart among textAmong).resolve_left different with before | after
      · have disjoint := before _ ofLocated _ ofText
        dsimp only at disjoint isStart isStop
        omega
      · have disjoint := after _ ofText _ ofLocated
        dsimp only at disjoint isStart isStop
        omega
    · apply reported.not_destination linkAmong among isInline _ ofLocated ⟨isStart, isStop⟩
      intro same
      rw [same, isInline] at isLink
      cases isLink
      exact notInline rfl

/-- **Exactly when rewriting touches only the targets of links.** -/
theorem rewriting_touches_targets_iff (reported : Reported content reads shapes (parse content)) :
    TouchesTargets content wikilinkReplacements markdownReplacements reads shapes parse ↔
      PlainTargets content markdownReplacements reads shapes parse :=
  ⟨plain_of_touches reported, touches_of_plain reported⟩

end Touching

/-- The link `[a](b)`, with a title behind its destination or without. -/
def smallLink (title : List Char) (quoted : ∀ first ∈ title.head?, first ≠ ')') : LinkShape where
  label := ['a']
  lead := []
  destination := ['b']
  gap := if title = [] then [] else [' ']
  title := title
  trail := []
  filled := by
    refine ⟨nofun, ?_, nofun⟩
    unfold IsFiller
    split_ifs
    · nofun
    · simp
  quoted := quoted

def smallLinkEvents (stop : Nat) : List Located :=
  [⟨.startLink .inline ['b'], 0, stop⟩, ⟨.text, 1, 2⟩]

theorem mem_smallLinkEvents {stop : Nat} {located : Located} {linkType : LinkType}
    {destUrl : List Char} (among : located ∈ smallLinkEvents stop)
    (isLink : located.event = .startLink linkType destUrl) :
    located = ⟨.startLink .inline ['b'], 0, stop⟩ ∧ linkType = .inline ∧ destUrl = ['b'] := by
  rcases mem_cons.1 among with rfl | isText
  · cases isLink
    exact ⟨rfl, rfl, rfl⟩
  · rw [mem_singleton.1 isText] at isLink
    cases isLink

theorem reported_smallLink {title content : List Char} {stop : Nat}
    {quoted : ∀ first ∈ title.head?, first ≠ ')'}
    (isSource : (smallLink title quoted).source = content) (isStop : content.length = stop) :
    Reported content some (fun _ => smallLink title quoted) (smallLinkEvents stop) := by
  have long : 2 ≤ content.length := by
    rw [← isSource]
    simp only [LinkShape.source, LinkShape.opening, length_append, length_cons]
    omega
  refine ⟨?_, ?_, pairwise_pair.2 (.inr (.inr le_rfl))⟩
  · intro located among
    rcases mem_cons.1 among with rfl | isText
    · exact ⟨Nat.zero_le _, isStop.ge⟩
    · rw [mem_singleton.1 isText]
      exact ⟨by decide, long⟩
  · intro located among destUrl isInline
    obtain ⟨rfl, _, rfl⟩ := mem_smallLinkEvents among isInline
    rw [isSource, ← isStop]
    exact ⟨take_length, rfl⟩

/-- A destination that stands alone is replaced. -/
theorem rewriting_touches_targets_alone :
    rewriteLinksInContent "[a](b)".toList [] [(['b'], ['c'])] (fun _ => smallLinkEvents 6)
        = "[a](c)".toList
      ∧ TouchesTargets "[a](b)".toList [] [(['b'], ['c'])] some (fun _ => smallLink [] nofun)
        (fun _ => smallLinkEvents 6) := by
  have reported : Reported "[a](b)".toList some (fun _ => smallLink [] nofun)
      (smallLinkEvents 6) := reported_smallLink (by decide) rfl
  refine ⟨by decide, (rewriting_touches_targets_iff reported).2 ⟨?_, ?_⟩⟩
  · intro located among destUrl newUrl isInline replaced
    exact ⟨⟨rfl, rfl, rfl, rfl⟩, by decide, by decide, rfl⟩
  · intro located among linkType destUrl isLink notInline
    exact absurd (mem_smallLinkEvents (mem_of_visible among) isLink).2.1 notInline

theorem quote_opens : ∀ first ∈ ['"', 't', '"'].head?, first ≠ ')' := by
  simp

/-- A title is replaced with the destination. -/
theorem rewriting_drops_title :
    Reported "[a](b \"t\")".toList some (fun _ => smallLink ['"', 't', '"'] quote_opens)
        (smallLinkEvents 10)
      ∧ rewriteLinksInContent "[a](b \"t\")".toList [] [(['b'], ['c'])]
          (fun _ => smallLinkEvents 10) = "[a](c)".toList
      ∧ ¬TouchesTargets "[a](b \"t\")".toList [] [(['b'], ['c'])] some
        (fun _ => smallLink ['"', 't', '"'] quote_opens) (fun _ => smallLinkEvents 10) := by
  refine ⟨reported_smallLink (by decide) rfl, by decide, ?_⟩
  intro touches
  have ⟨raw, member, _⟩ := touches.renewed ⟨.startLink .inline ['b'], 0, 10⟩ (by decide)
    ['b'] ['c'] rfl (by decide)
  have isEdit : collectEdits "[a](b \"t\")".toList [] [(['b'], ['c'])] (smallLinkEvents 10)
      = [⟨4, 9, ['c']⟩] := by decide
  rw [isEdit, mem_singleton] at member
  have isStop : 5 = 9 := congrArg Edit.stop member
  omega

end Clepsydra.Vault.Rewriter
