import Clepsydra.Library.Splice
import Clepsydra.Library.Substring

/-!
Owns: the rewriting of links: the scan for wikilinks, the place of a destination, and the edits.

Does not own: the Markdown parser, whose events are given. Positions count characters.
-/

namespace Clepsydra.Vault.Rewriter

open Library List Option
open Library.Splice (Edit)

/-! ### Parser events -/

inductive LinkType where
  | inline
  | reference
  | referenceUnknown
  | collapsed
  | collapsedUnknown
  | shortcut
  | shortcutUnknown
  | autolink
  | email
deriving DecidableEq

inductive ParserEvent where
  | startCodeBlock
  | endCodeBlock
  | startHtmlBlock
  | endHtmlBlock
  | startLink (linkType : LinkType) (destUrl : List Char)
  | text
  | other
deriving DecidableEq

structure Located where
  event : ParserEvent
  start : Nat
  stop : Nat
deriving DecidableEq

def Located.source (content : List Char) (located : Located) : List Char :=
  (content.take located.stop).drop located.start

def outsideBlocks (inCodeBlock inHtmlBlock : Bool) : List Located → List Located
  | [] => []
  | located :: rest =>
    match located.event with
    | .startCodeBlock => outsideBlocks true inHtmlBlock rest
    | .endCodeBlock => outsideBlocks false inHtmlBlock rest
    | .startHtmlBlock => outsideBlocks inCodeBlock true rest
    | .endHtmlBlock => outsideBlocks inCodeBlock false rest
    | .startLink _ _ | .text =>
      if inCodeBlock || inHtmlBlock then outsideBlocks inCodeBlock inHtmlBlock rest
      else located :: outsideBlocks inCodeBlock inHtmlBlock rest
    | .other => outsideBlocks inCodeBlock inHtmlBlock rest

/-! ### Wikilinks -/

/-- A match of `\[\[([^\[\]]+)\]\]` at the start of a text, by what is inside. -/
def matchWikilink : List Char → Option (List Char)
  | '[' :: '[' :: rest =>
    let inner := rest.takeWhile fun character => character ≠ '[' ∧ character ≠ ']'
    if inner ≠ [] ∧ (rest.drop inner.length).take 2 = [']', ']'] then some inner else none
  | _ => none

structure Wikilink where
  start : Nat
  inner : List Char
deriving DecidableEq

namespace Wikilink

def stop (wikilink : Wikilink) : Nat := wikilink.start + wikilink.inner.length + 4

/-- What stands before the first `|`. -/
def target (wikilink : Wikilink) : List Char :=
  match splitOnce ['|'] wikilink.inner with
  | some (target, _) => target
  | none => wikilink.inner

def display (wikilink : Wikilink) : Option (List Char) :=
  (splitOnce ['|'] wikilink.inner).map Prod.snd

end Wikilink

/-- `captures_iter`; `skip` counts the characters that are left of a match. -/
def wikilinksFrom (skip position : Nat) : List Char → List Wikilink
  | [] => []
  | character :: rest =>
    match skip with
    | skip + 1 => wikilinksFrom skip (position + 1) rest
    | 0 =>
      match matchWikilink (character :: rest) with
      | some inner => ⟨position, inner⟩ :: wikilinksFrom (inner.length + 3) (position + 1) rest
      | none => wikilinksFrom 0 (position + 1) rest

def wikilinks (text : List Char) : List Wikilink := wikilinksFrom 0 0 text

/-! ### Replacements -/

def deletePlain : List Char := "\x00PLAIN:".toList

def deleteUnlink : List Char := "\x00UNLINK:".toList

def stripPrefix (start text : List Char) : Option (List Char) :=
  if start.isPrefixOf text then some (text.drop start.length) else none

def buildWikilinkReplacement (newTarget : List Char) (display : Option (List Char)) : List Char :=
  match stripPrefix deletePlain newTarget with
  | some text => text
  | none =>
    match stripPrefix deleteUnlink newTarget with
    | some text => ['~', '~'] ++ text ++ ['~', '~']
    | none =>
      match display with
      | some display => ['[', '['] ++ newTarget ++ ['|'] ++ display ++ [']', ']']
      | none => ['[', '['] ++ newTarget ++ [']', ']']

/-- `rfind`. -/
def lastOccurrence (pattern : List Char) : List Char → Option Nat
  | [] => none
  | first :: rest =>
    match lastOccurrence pattern rest with
    | some position => some (position + 1)
    | none => if pattern.isPrefixOf (first :: rest) then some 0 else none

/-- After the last `](`, up to the next `)`. -/
def destinationRange (linkText : List Char) : Option (Nat × Nat) := do
  let parenOpen ← lastOccurrence [']', '('] linkText
  let urlLength ← (linkText.drop (parenOpen + 2)).findIdx? (· = ')')
  some (parenOpen + 2, parenOpen + 2 + urlLength)

def rewriteMarkdownLink (linkText newUrl : List Char) (baseOffset : Nat) : Option (Edit Char) :=
  (destinationRange linkText).map fun range =>
    ⟨baseOffset + range.1, baseOffset + range.2, newUrl⟩

abbrev Replacements := List (List Char × List Char)

def Replacements.newTarget (replacements : Replacements) (target : List Char) :
    Option (List Char) :=
  (replacements.find? fun replacement => replacement.1 = target).map Prod.snd

section Editing

variable (content : List Char) (wikilinkReplacements markdownReplacements : Replacements)

def wikilinkEdit (offset : Nat) (wikilink : Wikilink) : Option (Edit Char) :=
  (wikilinkReplacements.newTarget wikilink.target).map fun newTarget =>
    ⟨offset + wikilink.start, offset + wikilink.stop,
      buildWikilinkReplacement newTarget wikilink.display⟩

def editsOf (located : Located) : List (Edit Char) :=
  match located.event with
  | .startLink _ destUrl =>
    ((markdownReplacements.newTarget destUrl).bind fun newUrl =>
      rewriteMarkdownLink (located.source content) newUrl located.start).toList
  | .text => (wikilinks (located.source content)).filterMap
      (wikilinkEdit wikilinkReplacements located.start)
  | _ => []

/-- `collect_edits`. -/
def collectEdits (events : List Located) : List (Edit Char) :=
  (outsideBlocks false false events).flatMap
    (editsOf content wikilinkReplacements markdownReplacements)

/-- `rewrite_links_in_content`. -/
def rewriteLinksInContent (parse : List Char → List Located) : List Char :=
  if wikilinkReplacements.isEmpty && markdownReplacements.isEmpty then content
  else Splice.applyEdits content
    (collectEdits content wikilinkReplacements markdownReplacements (parse content))

end Editing

/-! ### Ranges of edits -/

def Beside (content : List Char) (link text : Located) : Prop :=
  text.stop ≤ link.start ∨ link.stop ≤ text.start
    ∨ ∀ range, destinationRange (link.source content) = some range →
      text.stop ≤ link.start + range.1

/-- Texts follow each other, and so do links; a text inside of a link is in its label. -/
def Separate (content : List Char) (first second : Located) : Prop :=
  match first.event, second.event with
  | .text, .text => first.stop ≤ second.start
  | .startLink .inline _, .startLink .inline _ => first.stop ≤ second.start
  | .startLink .inline _, .text => Beside content first second
  | .text, .startLink .inline _ => Beside content second first
  | _, _ => True

structure Parsed (content : List Char) (events : List Located) : Prop where
  bounds : ∀ located ∈ events, located.start ≤ located.stop ∧ located.stop ≤ content.length
  separate : events.Pairwise (Separate content)

theorem outsideBlocks_sublist (inCodeBlock inHtmlBlock : Bool) (events : List Located) :
    (outsideBlocks inCodeBlock inHtmlBlock events).Sublist events := by
  induction events generalizing inCodeBlock inHtmlBlock with
  | nil => exact List.Sublist.refl _
  | cons located rest ih =>
    unfold outsideBlocks
    cases located.event with
    | startLink linkType destUrl | text =>
      dsimp only
      split
      · exact (ih _ _).cons _
      · exact (ih _ _).cons_cons _
    | _ => exact (ih _ _).cons _

theorem length_source {content : List Char} {located : Located}
    (inside : located.stop ≤ content.length) :
    (located.source content).length = located.stop - located.start := by
  rw [Located.source, length_drop, length_take]
  omega

theorem length_of_matchWikilink {text inner : List Char}
    (matched : matchWikilink text = some inner) :
    inner.length + 4 ≤ text.length := by
  unfold matchWikilink at matched
  split at matched
  · rename_i rest
    dsimp only at matched
    split at matched
    · rename_i closed
      obtain rfl := some.inj matched
      have closing := congrArg List.length closed.2
      rw [length_take, length_drop] at closing
      simp only [length_cons, length_nil] at closing ⊢
      omega
    · exact nomatch matched
  · exact nomatch matched

theorem bounds_of_wikilinksFrom {skip position : Nat} {text : List Char} :
    ∀ wikilink ∈ wikilinksFrom skip position text,
      position + skip ≤ wikilink.start ∧ wikilink.stop ≤ position + text.length := by
  induction text generalizing skip position with
  | nil => exact nofun
  | cons character rest ih =>
    intro wikilink among
    unfold wikilinksFrom at among
    rw [length_cons]
    cases skip with
    | succ skip =>
      have bounds := ih wikilink among
      omega
    | zero =>
      dsimp only at among
      cases matched : matchWikilink (character :: rest) with
      | none =>
        rw [matched] at among
        have bounds := ih wikilink among
        omega
      | some inner =>
        rw [matched] at among
        have long := length_of_matchWikilink matched
        rw [length_cons] at long
        rcases mem_cons.1 among with rfl | later
        · simp only [Wikilink.stop]
          omega
        · have bounds := ih wikilink later
          omega

theorem pairwise_wikilinksFrom (skip position : Nat) (text : List Char) :
    (wikilinksFrom skip position text).Pairwise fun first second => first.stop ≤ second.start := by
  induction text generalizing skip position with
  | nil => exact List.Pairwise.nil
  | cons character rest ih =>
    unfold wikilinksFrom
    cases skip with
    | succ skip => exact ih skip (position + 1)
    | zero =>
      dsimp only
      cases matchWikilink (character :: rest) with
      | none => exact ih 0 (position + 1)
      | some inner =>
        refine pairwise_cons.2 ⟨fun wikilink later => ?_, ih _ _⟩
        have bounds := bounds_of_wikilinksFrom wikilink later
        simp only [Wikilink.stop]
        omega

theorem bounds_of_destinationRange {linkText : List Char} {range : Nat × Nat}
    (found : destinationRange linkText = some range) :
    0 < range.1 ∧ range.1 ≤ range.2 ∧ range.2 < linkText.length := by
  unfold destinationRange at found
  have ⟨parenOpen, _, rest⟩ := bind_eq_some_iff.1 found
  have ⟨urlLength, isLength, same⟩ := bind_eq_some_iff.1 rest
  obtain rfl := some.inj same
  have inside := (findIdx?_eq_some_iff_findIdx_eq.1 isLength).1
  rw [length_drop] at inside
  dsimp only
  omega

section Ranges

variable {content : List Char} {wikilinkReplacements markdownReplacements : Replacements}
  {located : Located} {edit : Edit Char} {linkType : LinkType} {destUrl : List Char}

theorem mem_editsOf_link (isLink : located.event = .startLink linkType destUrl) :
    edit ∈ editsOf content wikilinkReplacements markdownReplacements located ↔
      ∃ newUrl range, markdownReplacements.newTarget destUrl = some newUrl
        ∧ destinationRange (located.source content) = some range
        ∧ ⟨located.start + range.1, located.start + range.2, newUrl⟩ = edit := by
  unfold editsOf rewriteMarkdownLink
  rw [isLink]
  dsimp only
  rw [mem_toList, bind_eq_some_iff]
  simp only [map_eq_some_iff, exists_and_left]

theorem mem_editsOf_text (isText : located.event = .text) :
    edit ∈ editsOf content wikilinkReplacements markdownReplacements located ↔
      ∃ wikilink ∈ wikilinks (located.source content), ∃ newTarget,
        wikilinkReplacements.newTarget wikilink.target = some newTarget
          ∧ ⟨located.start + wikilink.start, located.start + wikilink.stop,
            buildWikilinkReplacement newTarget wikilink.display⟩ = edit := by
  unfold editsOf wikilinkEdit
  rw [isText]
  dsimp only
  simp only [mem_filterMap, map_eq_some_iff]

theorem event_of_mem_editsOf
    (member : edit ∈ editsOf content wikilinkReplacements markdownReplacements located) :
    located.event = .text ∨ ∃ linkType destUrl, located.event = .startLink linkType destUrl := by
  unfold editsOf at member
  split at member
  · rename_i linkType destUrl isLink
    exact Or.inr ⟨linkType, destUrl, isLink⟩
  · rename_i isText
    exact Or.inl isText
  · exact nomatch member

theorem bounds_of_text (isText : located.event = .text) (inside : located.stop ≤ content.length)
    (member : edit ∈ editsOf content wikilinkReplacements markdownReplacements located) :
    located.start ≤ edit.start ∧ edit.start < edit.stop ∧ edit.stop ≤ located.stop := by
  obtain ⟨wikilink, among, newTarget, _, rfl⟩ := (mem_editsOf_text isText).1 member
  have bounds := bounds_of_wikilinksFrom wikilink among
  rw [length_source inside] at bounds
  have long : wikilink.start < wikilink.stop := by
    simp only [Wikilink.stop]
    omega
  dsimp only
  omega

theorem bounds_of_link (isLink : located.event = .startLink linkType destUrl)
    (inside : located.stop ≤ content.length)
    (member : edit ∈ editsOf content wikilinkReplacements markdownReplacements located) :
    located.start < edit.start ∧ edit.start ≤ edit.stop ∧ edit.stop < located.stop
      ∧ ∃ range, destinationRange (located.source content) = some range
        ∧ edit.start = located.start + range.1 := by
  obtain ⟨newUrl, range, _, found, rfl⟩ := (mem_editsOf_link isLink).1 member
  have bounds := bounds_of_destinationRange found
  rw [length_source inside] at bounds
  refine ⟨?_, ?_, ?_, range, found, rfl⟩ <;> dsimp only <;> omega

theorem bounds_of_editsOf (inside : located.stop ≤ content.length)
    (member : edit ∈ editsOf content wikilinkReplacements markdownReplacements located) :
    located.start ≤ edit.start ∧ edit.start ≤ edit.stop ∧ edit.stop ≤ located.stop := by
  rcases event_of_mem_editsOf member with isText | ⟨linkType, destUrl, isLink⟩
  · have bounds := bounds_of_text isText inside member
    omega
  · have bounds := bounds_of_link isLink inside member
    omega

theorem pairwise_editsOf :
    (editsOf content wikilinkReplacements markdownReplacements located).Pairwise Splice.Apart := by
  unfold editsOf
  split
  · rename_i destUrl _
    cases ((markdownReplacements.newTarget destUrl).bind fun newUrl =>
        rewriteMarkdownLink (located.source content) newUrl located.start) with
    | none => exact List.Pairwise.nil
    | some edit => exact pairwise_singleton _ edit
  · rw [pairwise_filterMap]
    apply (pairwise_wikilinksFrom 0 0 (located.source content)).imp
    intro first second order edit isFirst other isSecond
    obtain ⟨_, _, rfl⟩ := map_eq_some_iff.1 isFirst
    obtain ⟨_, _, rfl⟩ := map_eq_some_iff.1 isSecond
    have long : first.start < first.stop := by
      simp only [Wikilink.stop]
      omega
    refine Or.inl ⟨?_, ?_⟩ <;> dsimp only <;> omega
  · exact List.Pairwise.nil

theorem collectEdits_nil (events : List Located) : collectEdits content [] [] events = [] := by
  refine flatMap_eq_nil_iff.2 fun located _ => eq_nil_iff_forall_not_mem.2 ?_
  intro edit member
  rcases event_of_mem_editsOf member with isText | ⟨linkType, destUrl, isLink⟩
  · have ⟨_, _, _, replaced, _⟩ := (mem_editsOf_text isText).1 member
    exact nomatch replaced
  · have ⟨_, _, replaced, _, _⟩ := (mem_editsOf_link isLink).1 member
    exact nomatch replaced

def InlineOnly (replacements : Replacements) (events : List Located) : Prop :=
  ∀ located ∈ events, ∀ linkType destUrl, located.event = .startLink linkType destUrl →
    replacements.newTarget destUrl ≠ none → linkType = .inline

def InlineEdits (content : List Char) (wikilinkReplacements markdownReplacements : Replacements)
    (events : List Located) : Prop :=
  ∀ located ∈ events, ∀ linkType destUrl, located.event = .startLink linkType destUrl →
    ∀ edit ∈ editsOf content wikilinkReplacements markdownReplacements located, linkType = .inline

variable {events : List Located}

theorem InlineOnly.edits (inlineOnly : InlineOnly markdownReplacements events) :
    InlineEdits content wikilinkReplacements markdownReplacements events := by
  intro located among linkType destUrl isLink edit member
  have ⟨newUrl, _, replaced, _, _⟩ := (mem_editsOf_link isLink).1 member
  exact inlineOnly located among linkType destUrl isLink (by rw [replaced]; nofun)

theorem InlineEdits.event_of_mem
    (inlineEdits : InlineEdits content wikilinkReplacements markdownReplacements events)
    (among : located ∈ events) (isLink : located.event = .startLink linkType destUrl)
    (member : edit ∈ editsOf content wikilinkReplacements markdownReplacements located) :
    located.event = .startLink .inline destUrl := by
  rw [isLink, inlineEdits located among linkType destUrl isLink edit member]

theorem apart_of_beside {link text : Located} {other : Edit Char}
    (isLink : link.event = .startLink .inline destUrl) (isText : text.event = .text)
    (linkInside : link.stop ≤ content.length) (textInside : text.stop ≤ content.length)
    (beside : Beside content link text)
    (ofLink : edit ∈ editsOf content wikilinkReplacements markdownReplacements link)
    (ofText : other ∈ editsOf content wikilinkReplacements markdownReplacements text) :
    Splice.Apart other edit := by
  have ⟨afterStart, ordered, beforeStop, range, found, isStart⟩ :=
    bounds_of_link isLink linkInside ofLink
  have textBounds := bounds_of_text isText textInside ofText
  rcases beside with before | after | inLabel
  · exact Or.inl ⟨by omega, by omega⟩
  · exact Or.inr ⟨by omega, by omega⟩
  · have label := inLabel range found
    exact Or.inl ⟨by omega, by omega⟩

theorem pairwise_collectEdits (parsed : Parsed content events)
    (inlineEdits : InlineEdits content wikilinkReplacements markdownReplacements
      (outsideBlocks false false events)) :
    (collectEdits content wikilinkReplacements markdownReplacements events).Pairwise
      Splice.Apart := by
  have sublist := outsideBlocks_sublist false false events
  have separate := parsed.separate.sublist sublist
  refine pairwise_flatMap.2 ⟨fun located _ => pairwise_editsOf, separate.imp_of_mem ?_⟩
  intro first second firstAmong secondAmong apart edit ofFirst other ofSecond
  have firstInside := (parsed.bounds first (sublist.subset firstAmong)).2
  have secondInside := (parsed.bounds second (sublist.subset secondAmong)).2
  rcases event_of_mem_editsOf ofFirst with firstText | ⟨linkType, destUrl, firstLink⟩
  · rcases event_of_mem_editsOf ofSecond with secondText | ⟨otherType, otherUrl, secondLink⟩
    · simp only [Separate, firstText, secondText] at apart
      have firstBounds := bounds_of_text firstText firstInside ofFirst
      have secondBounds := bounds_of_text secondText secondInside ofSecond
      exact Or.inl ⟨by omega, by omega⟩
    · have isInline := inlineEdits.event_of_mem secondAmong secondLink ofSecond
      simp only [Separate, firstText, isInline] at apart
      exact apart_of_beside isInline firstText secondInside firstInside apart ofSecond ofFirst
  · have firstInline := inlineEdits.event_of_mem firstAmong firstLink ofFirst
    rcases event_of_mem_editsOf ofSecond with secondText | ⟨otherType, otherUrl, secondLink⟩
    · simp only [Separate, firstInline, secondText] at apart
      exact (apart_of_beside firstInline secondText firstInside secondInside apart ofFirst
        ofSecond).symm
    · have secondInline := inlineEdits.event_of_mem secondAmong secondLink ofSecond
      simp only [Separate, firstInline, secondInline] at apart
      have firstBounds := bounds_of_link firstInline firstInside ofFirst
      have secondBounds := bounds_of_link secondInline secondInside ofSecond
      exact Or.inl ⟨by omega, by omega⟩

theorem within_of_collectEdits (parsed : Parsed content events) :
    ∀ edit ∈ collectEdits content wikilinkReplacements markdownReplacements events,
      edit.start ≤ edit.stop ∧ edit.stop ≤ content.length := by
  intro edit member
  have ⟨located, among, ofLocated⟩ := mem_flatMap.1 member
  have inside := parsed.bounds located ((outsideBlocks_sublist _ _ _).subset among)
  have bounds := bounds_of_editsOf inside.2 ofLocated
  omega

theorem rewriteLinksInContent_eq {parse : List Char → List Located}
    (parsed : Parsed content (parse content))
    (inlineEdits : InlineEdits content wikilinkReplacements markdownReplacements
      (outsideBlocks false false (parse content))) :
    rewriteLinksInContent content wikilinkReplacements markdownReplacements parse
      = Splice.splice content (Splice.lastFirst
        (collectEdits content wikilinkReplacements markdownReplacements (parse content))) := by
  have applied := Splice.applyEdits_eq_splice (pairwise_collectEdits parsed inlineEdits)
    (within_of_collectEdits parsed)
  unfold rewriteLinksInContent
  split_ifs with nothing
  · -- without replacements there are no edits
    rw [Bool.and_eq_true, List.isEmpty_iff, List.isEmpty_iff] at nothing
    obtain ⟨rfl, rfl⟩ := nothing
    rw [← applied, collectEdits_nil]
    rfl
  · exact applied

end Ranges

end Clepsydra.Vault.Rewriter
