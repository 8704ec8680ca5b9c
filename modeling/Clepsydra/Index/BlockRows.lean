import Clepsydra.Library.Relational
import Clepsydra.Vault.BlockParser

/-!
Owns: the rows that the index keeps of the blocks of a page, and the query for their parents.

Proves: no two blocks start at one byte, and the query selects the parser's parent.
-/

namespace Clepsydra.Index

open Library Library.Relational Library.Nesting Vault.Blocks List

/-! ### Rows -/

structure BlockRow where
  blockId : Option (List Char)
  pageId : String
  blockType : String
  parentId : Option (List Char)
  orderIndex : Nat
  content : List Char
  depth : Nat
  spanStart : Nat
  spanEnd : Nat
deriving DecidableEq

structure BlockPropertyRow where
  pageId : String
  spanStart : Nat
  key : List Char
  value : List Char

/-- `IndexError::Other`. -/
structure IndexError where
  message : String

def blockTypeStr : BlockType → String
  | .paragraph => "paragraph"
  | .listItem => "listitem"
  | .heading => "heading"
  | .code => "code"
  | .blockquote => "blockquote"

def checkSpanStarts (vaultPath : String) (spanStarts : List Nat) :
    List Block → Except IndexError Unit
  | [] => .ok ()
  | block :: rest =>
    if block.span.start ∈ spanStarts then
      .error ⟨"duplicate block span_start " ++ toString block.span.start ++ " while indexing "
        ++ vaultPath⟩
    else checkSpanStarts vaultPath (block.span.start :: spanStarts) rest

def blockRow (pageId : String) (blocks : List Block) (block : Block) : BlockRow where
  blockId := block.blockId
  pageId := pageId
  blockType := blockTypeStr block.blockType
  parentId := (block.parentIndex.bind fun parent => blocks[parent]?).bind Block.blockId
  orderIndex := block.orderIndex
  content := block.content
  depth := block.depth
  spanStart := block.span.start
  spanEnd := block.span.stop

def propertyRows (pageId : String) (block : Block) : List BlockPropertyRow :=
  block.properties.entries.map fun entry => ⟨pageId, block.span.start, entry.1, entry.2⟩

/-- `BlockDeriver::derive`: the rows that are inserted. -/
def derive (vaultPath pageId : String) (blocks : List Block) :
    Except IndexError (List BlockRow × List BlockPropertyRow) := do
  checkSpanStarts vaultPath [] blocks
  .ok (blocks.map (blockRow pageId blocks), blocks.flatMap (propertyRows pageId))

/-- `PARENT_CONTENT_SQL`, for the row `b`. -/
def parentContent (blocks : List BlockRow) (b : BlockRow) : Option (List Char) :=
  let earlier := blocks.filter fun pb =>
    pb.pageId = b.pageId ∧ pb.spanStart < b.spanStart ∧ pb.depth < b.depth
  (orderBy [⟨BlockRow.spanStart, true⟩] earlier).head?.map BlockRow.content

/-! ### Where blocks start -/

def opening : Event × Span → Option Nat
  | (.start .item, span) | (.start .definitionListTitle, span)
  | (.start .definitionListDefinition, span) | (.start .paragraph, span)
  | (.start .heading, span) | (.start .codeBlock, span) => some span.start
  | _ => none

def starts (state : ParserState Block) : List Nat :=
  (state.blocks.map fun block => block.span.start)
    ++ state.current.toList.map BlockBuilder.spanStart

section Starts

variable {isWord : Char → Bool} {state : ParserState Block}

theorem starts_flush : starts (flushCurrent (emitBlock isWord) state) = starts state := by
  cases isCurrent : state.current with
  | none => simp [flushCurrent, isCurrent]
  | some builder => simp [starts, flushCurrent, isCurrent, emitBlock]

theorem starts_startBlockBuilder (blockType : BlockType) (listDepth : Nat) (span : Span)
    (acceptsCheckbox : Bool) :
    starts (startBlockBuilder (emitBlock isWord) state blockType listDepth span acceptsCheckbox)
      = starts state ++ [span.start] := by
  have flushed := @starts_flush isWord state
  cases isCurrent : state.current with
  | none => simp [starts, startBlockBuilder, flushCurrent, isCurrent, BlockBuilder.fresh]
  | some builder =>
    simp [starts, startBlockBuilder, flushCurrent, isCurrent, BlockBuilder.fresh, emitBlock]

theorem starts_finishBlock (spanEnd : Nat) :
    starts (finishBlock (emitBlock isWord) state spanEnd) = starts state := by
  rw [finishBlock, starts_flush]
  cases isCurrent : state.current <;> simp [starts, isCurrent, BlockBuilder.ending]

theorem starts_handleParagraphStart (span : Span) :
    List.Sublist (starts (handleParagraphStart (emitBlock isWord) state span))
      (starts state ++ [span.start]) := by
  unfold handleParagraphStart
  split_ifs
  · -- What was being built is lost.
    simp [starts, BlockBuilder.fresh]
  · rw [starts_startBlockBuilder]

/-- **One event.** A block that is begun starts where the event does. -/
theorem starts_handleEvent (event : Event × Span) :
    List.Sublist (starts (handleEvent (emitBlock isWord) state event))
      (starts state ++ (opening event).toList) := by
  have same : ∀ {next : ParserState Block}, starts next = starts state →
      List.Sublist (starts next) (starts state ++ (opening event).toList) :=
    fun isSame => isSame ▸ sublist_append_left _ _
  have appended : ∀ piece, starts (appendText state piece) = starts state := by
    intro piece
    cases isCurrent : state.current <;> simp [starts, appendText, isCurrent, BlockBuilder.append]
  have ⟨event, span⟩ := event
  cases event with
  | start tag =>
    cases tag with
    | paragraph => exact starts_handleParagraphStart span
    | heading | codeBlock | item | definitionListTitle | definitionListDefinition =>
      exact (starts_startBlockBuilder _ _ span _).symm ▸ List.Sublist.refl _
    | _ => exact same rfl
  | stop tag =>
    cases tag with
    | paragraph | heading | codeBlock | item | definitionListTitle | definitionListDefinition =>
      exact same (starts_finishBlock span.stop)
    | _ => exact same rfl
  | text | code | softBreak | hardBreak => exact same (appended _)
  | taskListMarker checked =>
    apply same
    cases isCurrent : state.current <;>
      simp [starts, handleEvent, setCheckbox, isCurrent, BlockBuilder.marked]
  | other => exact same rfl

theorem starts_foldl (events : List (Event × Span)) : ∀ state : ParserState Block,
    List.Sublist (starts (events.foldl (handleEvent (emitBlock isWord)) state))
      (starts state ++ events.filterMap opening) := by
  induction events with
  | nil => exact fun _ => sublist_append_left _ _
  | cons event rest ih =>
    intro state
    apply (ih _).trans
    rw [filterMap_cons]
    have step := (@starts_handleEvent isWord state event).append_right (rest.filterMap opening)
    cases isOpening : opening event with
    | none | some => simpa [isOpening] using step

end Starts

/-- **The blocks of a page start at increasing bytes**, and they are a tree. -/
theorem parsed_blocks {isWord : Char → Bool} {events : List (Event × Span)} {blocks : List Block}
    (increasing : (events.filterMap opening).Pairwise (· < ·))
    (isBlocks : parseBlocks isWord events = some blocks) :
    (blocks.Pairwise fun first second => first.span.start < second.span.start) ∧ IsTree blocks := by
  unfold parseBlocks at isBlocks
  dsimp only at isBlocks
  split_ifs at isBlocks with fits
  obtain rfl := Option.some.inj isBlocks
  have ⟨kept, isTree, _⟩ := assignParentsAndOrder_isTree ⟨emitted (emitBlock isWord) events, fits⟩
  refine ⟨?_, isTree⟩
  have sameStarts := congrArg (List.map fun block => block.span.start) kept
  simp only [map_map] at sameStarts
  have begun := @starts_foldl isWord events .initial
  rw [← starts_flush] at begun
  have sorted : ((emitted (emitBlock isWord) events).map fun block => block.span.start).Pairwise
      (· < ·) := increasing.sublist ((sublist_append_left _ _).trans begun)
  rw [← pairwise_map]
  exact sameStarts.symm ▸ sorted

theorem checkSpanStarts_ok {vaultPath : String} {blocks : List Block} : ∀ {spanStarts : List Nat},
    (∀ block ∈ blocks, block.span.start ∉ spanStarts) →
    (blocks.Pairwise fun first second => first.span.start < second.span.start) →
    checkSpanStarts vaultPath spanStarts blocks = .ok () := by
  induction blocks with
  | nil => exact fun _ _ => rfl
  | cons block rest ih =>
    intro spanStarts fresh increasing
    have ⟨before, increasingRest⟩ := pairwise_cons.1 increasing
    rw [forall_mem_cons] at fresh
    rw [checkSpanStarts, if_neg fresh.1]
    apply ih _ increasingRest
    intro other member
    rw [mem_cons, not_or]
    exact ⟨(before other member).ne', fresh.2 other member⟩

/-! ### The query -/

theorem head_orderBy {α : Type} {value : α → Nat} {rows : List α} {row : α} (member : row ∈ rows)
    (last : ∀ other ∈ rows, other = row ∨ value other < value row) :
    (orderBy [⟨value, true⟩] rows).head? = some row := by
  have ordered := pairwise_orderBy [⟨value, true⟩] rows
  have inOrder : row ∈ orderBy [⟨value, true⟩] rows := mem_orderBy.2 member
  have inRows : ∀ other ∈ orderBy [⟨value, true⟩] rows, other ∈ rows :=
    fun other isIn => mem_orderBy.1 isIn
  cases isOrder : orderBy [⟨value, true⟩] rows with
  | nil =>
    rw [isOrder] at inOrder
    exact nomatch inOrder
  | cons head rest =>
    rw [isOrder] at ordered inOrder inRows
    rcases last head (inRows head mem_cons_self) with rfl | less
    · rfl
    · rcases mem_cons.1 inOrder with rfl | inRest
      · exact absurd less (lt_irrefl _)
      · have before := (pairwise_cons.1 ordered).1 row inRest
        simp [precedes, less.ne, less] at before

/-- **The query selects the parser's parent**: it gives each indexed block the content of its
parent. -/
theorem parentContent_parseBlocks {isWord : Char → Bool} {events : List (Event × Span)}
    {blocks : List Block} (increasing : (events.filterMap opening).Pairwise (· < ·))
    (isBlocks : parseBlocks isWord events = some blocks) (vaultPath pageId : String) :
    derive vaultPath pageId blocks
        = .ok (blocks.map (blockRow pageId blocks), blocks.flatMap (propertyRows pageId))
      ∧ ∀ stored : List BlockRow, (∀ row, row.pageId = pageId →
            (row ∈ stored ↔ row ∈ blocks.map (blockRow pageId blocks))) →
          ∀ block ∈ blocks, match block.parentIndex with
            | none => parentContent stored (blockRow pageId blocks block) = none
            | some index => ∃ parent, blocks[index]? = some parent
                ∧ parentContent stored (blockRow pageId blocks block) = some parent.content := by
  have ⟨ordered, isTree⟩ := parsed_blocks increasing isBlocks
  constructor
  · rw [derive, checkSpanStarts_ok (fun _ _ => not_mem_nil) ordered]
    rfl
  intro stored holds block isBlock
  have ⟨before, after, split⟩ := append_of_mem isBlock
  have nearest := (isTree before block after split).parent
  rw [split] at ordered
  have ⟨orderedBefore, orderedRest, across⟩ := pairwise_append.1 ordered
  -- The rows the query sees are those of the shallower blocks before.
  have seen : ∀ row, row ∈ stored.filter (fun pb => pb.pageId = pageId
        ∧ pb.spanStart < block.span.start ∧ pb.depth < block.depth)
      ↔ ∃ other ∈ before, other.depth < block.depth ∧ blockRow pageId blocks other = row := by
    intro row
    rw [mem_filter, decide_eq_true_eq]
    constructor
    · rintro ⟨inStored, samePage, earlier, shallower⟩
      obtain ⟨other, isOther, rfl⟩ := mem_map.1 ((holds row samePage).1 inStored)
      rw [split] at isOther
      rcases mem_append.1 isOther with inBefore | inRest
      · exact ⟨other, inBefore, shallower, rfl⟩
      · have notBefore : block.span.start ≤ other.span.start := by
          rcases mem_cons.1 inRest with rfl | inAfter
          · exact Nat.le_refl _
          · exact Nat.le_of_lt ((pairwise_cons.1 orderedRest).1 other inAfter)
        exact absurd earlier (Nat.not_lt.2 notBefore)
    · rintro ⟨other, inBefore, shallower, rfl⟩
      have isOther : other ∈ blocks := split ▸ mem_append_left _ inBefore
      exact ⟨(holds _ rfl).2 (mem_map.2 ⟨other, isOther, rfl⟩), rfl,
        across other inBefore block mem_cons_self, shallower⟩
  cases isParent : block.parentIndex with
  | none =>
    rw [isParent] at nearest
    have nothing : stored.filter (fun pb => pb.pageId = pageId
        ∧ pb.spanStart < block.span.start ∧ pb.depth < block.depth) = [] := by
      apply eq_nil_iff_forall_not_mem.2
      intro row member
      have ⟨other, inBefore, shallower, _⟩ := (seen row).1 member
      have notBelow := nearest other.depth (mem_map.2 ⟨other, inBefore, rfl⟩)
      omega
    show (orderBy _ (stored.filter fun pb => pb.pageId = pageId
      ∧ pb.spanStart < block.span.start ∧ pb.depth < block.depth)).head?.map _ = none
    rw [nothing]
    rfl
  | some index =>
    rw [isParent] at nearest
    have ⟨⟨depth, read, below⟩, later⟩ := nearest
    rw [getElem?_map, Option.map_eq_some_iff] at read
    obtain ⟨parent, isHere, rfl⟩ := read
    have inside := (List.getElem?_eq_some_iff.1 isHere).1
    refine ⟨parent, ?_, ?_⟩
    · rw [split, getElem?_append_left inside, isHere]
    · have isLast : ∀ row ∈ stored.filter (fun pb => pb.pageId = pageId
            ∧ pb.spanStart < block.span.start ∧ pb.depth < block.depth),
          row = blockRow pageId blocks parent ∨ row.spanStart < parent.span.start := by
        intro row member
        obtain ⟨other, inBefore, shallower, rfl⟩ := (seen row).1 member
        obtain ⟨position, isPosition, rfl⟩ := getElem_of_mem inBefore
        obtain ⟨_, rfl⟩ := List.getElem?_eq_some_iff.1 isHere
        rcases Nat.lt_trichotomy position index with earlier | rfl | after
        · exact .inr (pairwise_iff_getElem.1 orderedBefore _ _ isPosition inside earlier)
        · exact .inl rfl
        · have notBelow := later position before[position].depth after
            (by rw [getElem?_map, getElem?_eq_getElem isPosition]; rfl)
          omega
      exact congrArg (Option.map BlockRow.content) (head_orderBy
        ((seen _).2 ⟨parent, mem_of_getElem? isHere, below, rfl⟩) isLast)

def nestedEvents : List (Event × Span) :=
  [(.start .list, ⟨0, 9⟩), (.start .item, ⟨0, 9⟩), (.text ['a'], ⟨2, 3⟩), (.start .list, ⟨6, 9⟩),
    (.start .item, ⟨6, 9⟩), (.text ['b'], ⟨8, 9⟩), (.stop .item, ⟨6, 9⟩), (.stop .list, ⟨6, 9⟩),
    (.stop .item, ⟨0, 9⟩), (.stop .list, ⟨0, 9⟩)]

theorem parentContent_nestedEvents : ∃ blocks,
    parseBlocks Char.isAlphanum nestedEvents = some blocks
      ∧ ∀ block ∈ blocks, match block.parentIndex with
        | none => parentContent (blocks.map (blockRow "page" blocks)) (blockRow "page" blocks block)
            = none
        | some index => ∃ parent, blocks[index]? = some parent
            ∧ parentContent (blocks.map (blockRow "page" blocks)) (blockRow "page" blocks block)
              = some parent.content := by
  have parses : (parseBlocks Char.isAlphanum nestedEvents).isSome = true := by decide
  have ⟨blocks, isBlocks⟩ := Option.isSome_iff_exists.1 parses
  exact ⟨blocks, isBlocks, (parentContent_parseBlocks (by decide) isBlocks "page.md" "page").2
    (blocks.map (blockRow "page" blocks)) fun _ _ => Iff.rfl⟩

end Clepsydra.Index
