import Clepsydra.Library.Transitions
import Clepsydra.Vault.InlineProperty

/-!
Owns: the reading of blocks off the events of a document, with the one that is being built.

Proves: exactly when no text and no list item is lost, and that properties in code are inert.
-/

namespace Clepsydra.Vault.Blocks

open Library Library.Regex Library.Utf8 List

/-! ### Events -/

/-- `pulldown_cmark::Tag`, without what the tags carry. -/
inductive Tag where
  | paragraph | heading | blockQuote | codeBlock | htmlBlock
  | list | item | footnoteDefinition
  | definitionList | definitionListTitle | definitionListDefinition
  | table | tableHead | tableRow | tableCell
  | emphasis | strong | strikethrough | superscript | subscript
  | link | image | metadataBlock
deriving DecidableEq

/-- `pulldown_cmark::Event`; `other` stands for those that no block takes up. -/
inductive Event where
  | start (tag : Tag)
  | stop (tag : Tag)
  | text (content : List Char)
  | code (content : List Char)
  | softBreak
  | hardBreak
  | taskListMarker (checked : Bool)
  | other
deriving DecidableEq

def wellNested : List Tag → List (Event × Span) → Bool
  | opened, [] => opened.isEmpty
  | opened, (.start tag, _) :: rest => wellNested (tag :: opened) rest
  | tag :: opened, (.stop other, _) :: rest => tag = other && wellNested opened rest
  | [], (.stop _, _) :: _ => false
  | opened, (_, _) :: rest => wellNested opened rest

/-! ### Builders -/

def IsCode (codeRanges : List Span) (byte : Nat) : Prop :=
  ∃ range ∈ codeRanges, range.start ≤ byte ∧ byte < range.stop

/-- The block that is being built. Its code ranges are not empty, unless all of its text is code. -/
structure BlockBuilder where
  blockType : BlockType
  textParts : List (List Char)
  textLen : Nat
  codeRanges : List Span
  checkbox : Option CheckboxState
  listDepth : Nat
  spanStart : Nat
  spanEnd : Nat
  acceptsCheckbox : Bool
  measured : textLen = byteLen textParts.flatten
  coded : if blockType = .code then ∀ byte < textLen, IsCode codeRanges byte
    else ∀ range ∈ codeRanges, range.start < range.stop

def BlockBuilder.fresh (blockType : BlockType) (listDepth : Nat) (span : Span)
    (acceptsCheckbox : Bool) : BlockBuilder where
  blockType := blockType
  textParts := []
  textLen := 0
  codeRanges := []
  checkbox := none
  listDepth := listDepth
  spanStart := span.start
  spanEnd := span.stop
  acceptsCheckbox := acceptsCheckbox
  measured := rfl
  coded := by
    split
    · exact fun _ below => absurd below (Nat.not_lt_zero _)
    · exact nofun

def appendedRanges (builder : BlockBuilder) (text : List Char) (inlineCode : Bool) : List Span :=
  if inlineCode || builder.blockType = .code then
    builder.codeRanges ++ [⟨builder.textLen, builder.textLen + byteLen text⟩]
  else builder.codeRanges

structure Piece where
  text : List Char
  inlineCode : Bool
  nonempty : inlineCode = true → 0 < byteLen text

def BlockBuilder.append (builder : BlockBuilder) (piece : Piece) : BlockBuilder := { builder with
    textLen := builder.textLen + byteLen piece.text
    codeRanges := appendedRanges builder piece.text piece.inlineCode
    textParts := builder.textParts ++ [piece.text]
    measured := by
      rw [builder.measured, flatten_append, byteLen_append, flatten_singleton]
    coded := by
      have coded := builder.coded
      unfold appendedRanges
      by_cases isCode : builder.blockType = .code
      · rw [if_pos isCode] at coded ⊢
        rw [if_pos (by simp [isCode])]
        intro byte below
        by_cases old : byte < builder.textLen
        · have ⟨range, member, inside⟩ := coded byte old
          exact ⟨range, mem_append_left _ member, inside⟩
        · exact ⟨_, mem_append_right _ (mem_singleton_self _), Nat.le_of_not_lt old, below⟩
      · rw [if_neg isCode] at coded ⊢
        intro range member
        split_ifs at member with marked
        · rcases mem_append.1 member with old | new
          · exact coded range old
          · have some := piece.nonempty (by simpa [isCode] using marked)
            rw [mem_singleton.1 new]
            dsimp only
            omega
        · exact coded range member }

def Event.piece : Event → Option Piece
  | .text content => some ⟨content, false, nofun⟩
  | .code content => some ⟨'`' :: (content ++ ['`']), true, fun _ => by
    have positive := '`'.utf8Size_pos
    rw [byteLen_cons]
    omega⟩
  | .softBreak => some ⟨[' '], false, nofun⟩
  | .hardBreak => some ⟨['\n'], false, nofun⟩
  | _ => none

/-! ### Parsing -/

structure ParserState (β : Type) where
  blocks : List β
  current : Option BlockBuilder
  listDepth : Nat
  inBlockquote : Bool

section Parsing

variable {β : Type} (emit : BlockBuilder → β) (state : ParserState β)

def flushCurrent : ParserState β :=
  match state.current with
  | some builder => { state with blocks := state.blocks ++ [emit builder], current := none }
  | none => state

def startBlockBuilder (blockType : BlockType) (listDepth : Nat) (span : Span)
    (acceptsCheckbox : Bool) : ParserState β :=
  { flushCurrent emit state with
    current := some (.fresh blockType listDepth span acceptsCheckbox) }

def BlockBuilder.ending (spanEnd : Nat) (builder : BlockBuilder) : BlockBuilder :=
  { builder with spanEnd }

def finishBlock (spanEnd : Nat) : ParserState β :=
  flushCurrent emit { state with current := state.current.map (BlockBuilder.ending spanEnd) }

def BlockBuilder.marked (checked : Bool) (builder : BlockBuilder) : BlockBuilder :=
  { builder with checkbox := some (if checked then .done else .todo) }

def setCheckbox (checked : Bool) : ParserState β :=
  { state with current := state.current.map (BlockBuilder.marked checked) }

def handleParagraphStart (span : Span) : ParserState β :=
  if state.inBlockquote then { state with current := some (.fresh .blockquote 0 span false) }
  else startBlockBuilder emit state .paragraph 0 span false

def handleParagraphEnd (spanEnd : Nat) : ParserState β := finishBlock emit state spanEnd

def appendText (piece : Piece) : ParserState β :=
  { state with current := state.current.map fun builder => builder.append piece }

def handleEvent (event : Event × Span) : ParserState β :=
  let span := event.2
  match event.1 with
  | .start .list | .start .definitionList => { state with listDepth := state.listDepth + 1 }
  | .stop .list | .stop .definitionList => { state with listDepth := state.listDepth - 1 }
  | .start .item => startBlockBuilder emit state .listItem (state.listDepth - 1) span true
  | .stop .item => finishBlock emit state span.stop
  | .start .definitionListTitle =>
    startBlockBuilder emit state .listItem (state.listDepth - 1) span false
  | .stop .definitionListTitle => finishBlock emit state span.stop
  | .start .definitionListDefinition =>
    startBlockBuilder emit state .listItem (state.listDepth - 1) span false
  | .stop .definitionListDefinition => finishBlock emit state span.stop
  | .taskListMarker checked => setCheckbox state checked
  | .start .heading => startBlockBuilder emit state .heading 0 span false
  | .stop .heading => finishBlock emit state span.stop
  | .start .paragraph => handleParagraphStart emit state span
  | .stop .paragraph => handleParagraphEnd emit state span.stop
  | .start .codeBlock => startBlockBuilder emit state .code 0 span false
  | .stop .codeBlock => finishBlock emit state span.stop
  | .start .blockQuote => { state with inBlockquote := true }
  | .stop .blockQuote => { state with inBlockquote := false }
  | .text _ | .code _ | .softBreak | .hardBreak =>
    match event.1.piece with
    | some piece => appendText state piece
    | none => state
  | _ => state

end Parsing

def ParserState.initial {β : Type} : ParserState β := ⟨[], none, 0, false⟩

def emitted {β : Type} (emit : BlockBuilder → β) (events : List (Event × Span)) : List β :=
  (flushCurrent emit (events.foldl (handleEvent emit) .initial)).blocks

/-! ### Emitting -/

def CheckboxState.status : CheckboxState → List Char
  | .todo => "todo".toList
  | .done => "done".toList
  | .cancelled => "cancelled".toList

def BlockBuilder.joined (builder : BlockBuilder) : List Char := builder.textParts.flatten

def BlockBuilder.extractCheckbox (builder : BlockBuilder) : Option CheckboxState × List Char :=
  if builder.acceptsCheckbox && builder.checkbox.isNone then
    let (found, content) := extractCancelledCheckbox builder.joined
    (if found then some .cancelled else none, content)
  else (builder.checkbox, builder.joined)

def emitBlock (isWord : Char → Bool) (builder : BlockBuilder) : Block :=
  let (checkbox, content) := builder.extractCheckbox
  let removedPrefix := builder.textLen - byteLen content
  let processed := postprocessContent isWord content builder.codeRanges removedPrefix
  { blockType := builder.blockType
    content := processed.content
    blockId := processed.blockId
    properties := match checkbox with
      | some state => processed.properties.insert "status".toList state.status
      | none => processed.properties
    checkbox := checkbox
    depth := builder.listDepth
    parentIndex := none
    orderIndex := 0
    span := ⟨builder.spanStart, builder.spanEnd⟩ }

/-- `parse_blocks`; nothing where a vector could not hold the blocks. -/
def parseBlocks (isWord : Char → Bool) (events : List (Event × Span)) : Option (List Block) :=
  let blocks := emitted (emitBlock isWord) events
  if fits : blocks.length ≤ usizeMax then some (assignParentsAndOrder ⟨blocks, fits⟩) else none

/-! ### Inline properties of a block -/

namespace BlockBuilder

variable (builder : BlockBuilder)

def propertyText : List Char := (extractBlockId builder.extractCheckbox.2).2

def removedPrefix : Nat := builder.textLen - byteLen builder.extractCheckbox.2

def takenOut (isWord : Char → Bool) : List Captures :=
  inlineProperties isWord builder.propertyText builder.codeRanges builder.removedPrefix

theorem exists_before : ∃ before, builder.joined = before ++ builder.extractCheckbox.2 := by
  have taken : ∃ before, builder.joined
      = before ++ (extractCancelledCheckbox builder.joined).2 := by
    unfold extractCancelledCheckbox
    cases found : find cancelledCheckboxPattern true builder.joined with
    | none => exact ⟨[], rfl⟩
    | some parts => exact ⟨parts.1 ++ parts.2.taken, join_find found⟩
  unfold extractCheckbox
  split_ifs
  · exact taken
  · exact ⟨[], rfl⟩

theorem byteLen_before {before : List Char}
    (isBefore : builder.joined = before ++ builder.extractCheckbox.2) :
    builder.removedPrefix = byteLen before := by
  have whole := builder.measured
  change _ = byteLen builder.joined at whole
  rw [removedPrefix, whole, isBefore, byteLen_append, Nat.add_sub_cancel]

theorem exists_after : ∃ after, builder.extractCheckbox.2 = builder.propertyText ++ after := by
  unfold propertyText extractBlockId
  split
  · rename_i before step found
    refine ⟨step.taken ++ step.rest, ?_⟩
    rw [← append_assoc]
    exact join_find found
  · exact ⟨[], (append_nil _).symm⟩

variable {builder}

/-- **Touching code**: one of the bytes, counted in the whole text, is code. -/
theorem any_overlaps_iff {captures : Captures} (some : captures.start < captures.stop)
    (inside : captures.stop + builder.removedPrefix ≤ builder.textLen) :
    builder.codeRanges.any (overlaps builder.removedPrefix captures) = true
      ↔ ∃ byte, builder.removedPrefix + captures.start ≤ byte
          ∧ byte < builder.removedPrefix + captures.stop ∧ IsCode builder.codeRanges byte := by
  rw [any_eq_true]
  simp only [overlaps, Bool.and_eq_true, decide_eq_true_eq]
  constructor
  · rintro ⟨range, member, startsBefore, stopsAfter⟩
    have coded := builder.coded
    by_cases isCode : builder.blockType = .code
    · rw [if_pos isCode] at coded
      exact ⟨builder.removedPrefix + captures.start, Nat.le_refl _, by omega,
        coded _ (by omega)⟩
    · rw [if_neg isCode] at coded
      have nonempty := coded range member
      exact ⟨max (builder.removedPrefix + captures.start) range.start, by omega, by omega,
        range, member, by omega, by omega⟩
  · rintro ⟨byte, startsBefore, stopsAfter, range, member, first, last⟩
    exact ⟨range, member, by omega, by omega⟩

end BlockBuilder

theorem nonempty_of_mem_capturesIter {isWord : Char → Bool} {text : List Char} {captures : Captures}
    (member : captures ∈ capturesIter (inlinePropertyPattern isWord) text) :
    captures.start < captures.stop ∧ captures.stop ≤ byteLen text := by
  have ⟨first, taken, last, _, isText, isStart, isStop, isStep⟩ :=
    (isPart_of_mem_capturesFrom member).1
  have ⟨key, blanks, raw, isTaken, _⟩ := inlineProperty_shape isStep
  have positive : 0 < byteLen taken := by
    have bracket := '['.utf8Size_pos
    dsimp only at isTaken
    rw [isTaken]
    simp only [byteLen_append, byteLen_cons, byteLen_nil]
    omega
  rw [isText, byteLen_append, byteLen_append]
  omega

/-- A match is taken out of the joined text exactly when none of its bytes is code, and each key
has the value of its last such match, but for the status of a checkbox. -/
structure PropertiesInert (isWord : Char → Bool) (builder : BlockBuilder)
    (before after : List Char) : Prop where
  checkbox : builder.joined = before ++ builder.extractCheckbox.2
  identifier : builder.extractCheckbox.2 = builder.propertyText ++ after
  located : ∀ captures ∈ capturesIter (inlinePropertyPattern isWord) builder.propertyText,
    slice builder.joined (byteLen before + captures.start) (byteLen before + captures.stop)
      = slice builder.propertyText captures.start captures.stop
  taken : ∀ captures ∈ capturesIter (inlinePropertyPattern isWord) builder.propertyText,
    captures ∈ builder.takenOut isWord ↔ ∀ byte, byteLen before + captures.start ≤ byte →
      byte < byteLen before + captures.stop → ¬ IsCode builder.codeRanges byte
  content : (emitBlock isWord builder).content
    = trim (outside (builder.takenOut isWord) 0 builder.propertyText)
  properties : ∀ key, (emitBlock isWord builder).properties.get key
    = match builder.extractCheckbox.1 with
      | some state =>
        if key = "status".toList then some state.status
        else lastValue (builder.takenOut isWord) key
      | none => lastValue (builder.takenOut isWord) key

theorem properties_emitBlock (isWord : Char → Bool) (builder : BlockBuilder) :
    (emitBlock isWord builder).properties = match builder.extractCheckbox.1 with
        | some state => (postprocessContent isWord builder.extractCheckbox.2 builder.codeRanges
            builder.removedPrefix).properties.insert "status".toList state.status
        | none => (postprocessContent isWord builder.extractCheckbox.2 builder.codeRanges
            builder.removedPrefix).properties := rfl

theorem emitBlock_inert (isWord : Char → Bool) (builder : BlockBuilder) :
    ∃ before after, PropertiesInert isWord builder before after := by
  obtain ⟨before, isBefore⟩ := builder.exists_before
  obtain ⟨after, isAfter⟩ := builder.exists_after
  have prefixLength := builder.byteLen_before isBefore
  obtain ⟨isText, isProps⟩ := extractInlineProperties_eq isWord builder.propertyText
    builder.codeRanges builder.removedPrefix
  refine ⟨before, after, isBefore, isAfter, ?_, ?_, congrArg trim isText, ?_⟩
  · intro captures member
    obtain ⟨first, taken, last, _, isPart, isStart, isStop, _⟩ :=
      (isPart_of_mem_capturesFrom member).1
    rw [Nat.zero_add] at isStart
    have here := getRange_append first taken last
    have there := getRange_append (before ++ first) taken (last ++ after)
    rw [isStart, isStop] at here
    rw [byteLen_append, Nat.add_assoc, isStart, isStop] at there
    rw [slice, slice, isBefore, isAfter, isPart, here]
    simp only [append_assoc] at there ⊢
    rw [there]
  · intro captures member
    obtain ⟨some, inside⟩ := nonempty_of_mem_capturesIter member
    have whole : captures.stop + builder.removedPrefix ≤ builder.textLen := by
      have length := builder.measured
      change _ = byteLen builder.joined at length
      rw [length, isBefore, isAfter, byteLen_append, byteLen_append, prefixLength]
      omega
    rw [BlockBuilder.takenOut, inlineProperties, mem_filter, Bool.not_eq_true',
      ← Bool.not_eq_true, BlockBuilder.any_overlaps_iff some whole, prefixLength]
    constructor
    · intro isTaken byte starts stops isCode
      exact isTaken.2 ⟨byte, starts, stops, isCode⟩
    · intro noCode
      refine ⟨member, ?_⟩
      rintro ⟨byte, starts, stops, isCode⟩
      exact noCode byte starts stops isCode
  · intro key
    have plain : (postprocessContent isWord builder.extractCheckbox.2 builder.codeRanges
        builder.removedPrefix).properties.get key = lastValue (builder.takenOut isWord) key :=
      isProps key
    rw [properties_emitBlock]
    cases builder.extractCheckbox.1 with
    | none => exact plain
    | some state =>
      dsimp only
      rw [OrderedMap.get_insert]
      by_cases isStatus : key = "status".toList
      · rw [if_pos isStatus, if_pos isStatus]
      · rw [if_neg isStatus, if_neg isStatus, plain]

/-- **Inline properties in code are inert**, in any text, and in every block that is emitted. -/
theorem inlineProperties_inert (isWord : Char → Bool) : (∀ text codeRanges removedPrefix,
      (extractInlineProperties isWord text codeRanges removedPrefix).2
          = outside (inlineProperties isWord text codeRanges removedPrefix) 0 text
        ∧ ∀ key, (extractInlineProperties isWord text codeRanges removedPrefix).1.get key
            = lastValue (inlineProperties isWord text codeRanges removedPrefix) key)
      ∧ ∀ builder, ∃ before after, PropertiesInert isWord builder before after :=
  ⟨extractInlineProperties_eq isWord, emitBlock_inert isWord⟩

end Clepsydra.Vault.Blocks
