import Clepsydra.Vault.BlockParser

/-!
Owns: what a document hands to the block that is being built, and which blocks are emitted.

Proves: all are exactly when no quoted paragraph starts while that block has text or is an item.
-/

namespace Clepsydra.Vault.Blocks

open Library.Transitions List

/-! ### What is handed over -/

def Tag.isBlock : Tag → Bool
  | .paragraph | .heading | .codeBlock | .item | .definitionListTitle
  | .definitionListDefinition => true
  | _ => false

def retiredAt (state : ParserState BlockBuilder) (event : Event × Span) : List BlockBuilder :=
  match event.1 with
  | .start tag => if tag.isBlock then state.current.toList else []
  | .stop tag =>
    if tag.isBlock then (state.current.map (BlockBuilder.ending event.2.stop)).toList else []
  | _ => []

def retired (state : ParserState BlockBuilder) : List (Event × Span) → List BlockBuilder
  | [] => state.current.toList
  | event :: rest => retiredAt state event ++ retired (handleEvent id state event) rest

def deliveredAt (state : ParserState BlockBuilder) (event : Event × Span) : List (List Char) :=
  if state.current.isSome then (event.1.piece.map Piece.text).toList else []

def delivered (state : ParserState BlockBuilder) : List (Event × Span) → List (List Char)
  | [] => []
  | event :: rest => deliveredAt state event ++ delivered (handleEvent id state event) rest

/-- Each text and each list item that reaches a block is in one of the emitted ones, in order. -/
structure KeepsText (events : List (Event × Span)) : Prop where
  blocks : ∀ isWord, emitted (emitBlock isWord) events = (emitted id events).map (emitBlock isWord)
  texts : (emitted id events).flatMap BlockBuilder.textParts = delivered .initial events
  items : (emitted id events).filter BlockBuilder.acceptsCheckbox
    = (retired .initial events).filter BlockBuilder.acceptsCheckbox

def step (state : ParserState BlockBuilder) (event : Event × Span) :
    Option (ParserState BlockBuilder) := some (handleEvent id state event)

/-- The block has no text and is no list item, if a paragraph of a block quote starts. -/
def Spares (state : ParserState BlockBuilder) (event : Event × Span) : Prop :=
  event.1 = .start .paragraph → state.inBlockquote = true →
    ∀ builder ∈ state.current, builder.textParts = [] ∧ builder.acceptsCheckbox = false

/-! ### Actions -/

inductive Action where
  | opens (blockType : BlockType) (listDepth : Nat) (span : Span) (acceptsCheckbox : Bool)
  | replaces (span : Span)
  | closes (spanEnd : Nat)
  | marks (checked : Bool)
  | appends (piece : Piece)
  | moves (listDepth : Nat) (inBlockquote : Bool)

section Actions

variable {β : Type}

def actionOf (state : ParserState β) (event : Event × Span) : Action :=
  match event.1 with
  | .start .item => .opens .listItem (state.listDepth - 1) event.2 true
  | .start .definitionListTitle | .start .definitionListDefinition =>
    .opens .listItem (state.listDepth - 1) event.2 false
  | .start .heading => .opens .heading 0 event.2 false
  | .start .codeBlock => .opens .code 0 event.2 false
  | .start .paragraph =>
    if state.inBlockquote then .replaces event.2 else .opens .paragraph 0 event.2 false
  | .stop .item | .stop .definitionListTitle | .stop .definitionListDefinition | .stop .heading
  | .stop .codeBlock | .stop .paragraph => .closes event.2.stop
  | .start .list | .start .definitionList => .moves (state.listDepth + 1) state.inBlockquote
  | .stop .list | .stop .definitionList => .moves (state.listDepth - 1) state.inBlockquote
  | .start .blockQuote => .moves state.listDepth true
  | .stop .blockQuote => .moves state.listDepth false
  | .taskListMarker checked => .marks checked
  | kind =>
    match kind.piece with
    | some piece => .appends piece
    | none => .moves state.listDepth state.inBlockquote

def perform (emit : BlockBuilder → β) (state : ParserState β) : Action → ParserState β
  | .opens blockType listDepth span acceptsCheckbox =>
    startBlockBuilder emit state blockType listDepth span acceptsCheckbox
  | .replaces span => { state with current := some (.fresh .blockquote 0 span false) }
  | .closes spanEnd => finishBlock emit state spanEnd
  | .marks checked => setCheckbox state checked
  | .appends piece => appendText state piece
  | .moves listDepth inBlockquote => { state with listDepth, inBlockquote }

/-- **What an event can do**, said once. -/
theorem handleEvent_eq (emit : BlockBuilder → β) (state : ParserState β) (event : Event × Span) :
    handleEvent emit state event = perform emit state (actionOf state event) := by
  have ⟨kind, span⟩ := event
  cases kind with
  | start tag =>
    cases tag with
    | paragraph =>
      simp only [handleEvent, handleParagraphStart, actionOf]
      split_ifs
      · rfl
      · rfl
    | _ => rfl
  | stop tag => cases tag <;> rfl
  | _ => rfl

def Action.loses (state : ParserState β) : Action → List BlockBuilder
  | .replaces _ => state.current.toList
  | _ => []

def Action.retires (state : ParserState β) : Action → List BlockBuilder
  | .opens _ _ _ _ | .replaces _ => state.current.toList
  | .closes spanEnd => (state.current.map (BlockBuilder.ending spanEnd)).toList
  | _ => []

def Action.delivers (state : ParserState β) : Action → List (List Char)
  | .appends piece => if state.current.isSome then [piece.text] else []
  | _ => []

theorem spares_iff {state : ParserState BlockBuilder} {event : Event × Span} :
    Spares state event ↔ ∀ builder ∈ (actionOf state event).loses state,
      builder.textParts = [] ∧ builder.acceptsCheckbox = false := by
  have ⟨kind, span⟩ := event
  by_cases starts : kind = .start .paragraph
  · subst starts
    by_cases quoted : state.inBlockquote = true
    · simp [Spares, actionOf, quoted, Action.loses]
    · simp [Spares, actionOf, quoted, Action.loses]
  · have nothing : (actionOf state (kind, span)).loses state = [] := by
      cases kind with
      | start tag =>
        cases tag with
        | paragraph => exact absurd rfl starts
        | _ => rfl
      | stop tag => cases tag <;> rfl
      | _ => rfl
    rw [nothing]
    exact ⟨fun _ => forall_mem_nil _, fun _ isStart => absurd isStart starts⟩

theorem retiredAt_eq (state : ParserState BlockBuilder) (event : Event × Span) :
    retiredAt state event = (actionOf state event).retires state := by
  have ⟨kind, span⟩ := event
  cases kind with
  | start tag =>
    cases tag with
    | paragraph =>
      by_cases quoted : state.inBlockquote = true
      · simp [retiredAt, actionOf, Action.retires, Tag.isBlock, quoted]
      · simp [retiredAt, actionOf, Action.retires, Tag.isBlock, quoted]
    | _ => rfl
  | stop tag => cases tag <;> rfl
  | _ => rfl

theorem deliveredAt_eq (state : ParserState BlockBuilder) (event : Event × Span) :
    deliveredAt state event = (actionOf state event).delivers state := by
  have ⟨kind, span⟩ := event
  have nothing : ∀ condition : Bool, (if condition then ([] : List (List Char)) else []) = [] :=
    fun _ => ite_self _
  cases kind with
  | start tag =>
    cases tag with
    | paragraph =>
      by_cases quoted : state.inBlockquote = true
      · simp [deliveredAt, actionOf, Action.delivers, Event.piece, quoted]
      · simp [deliveredAt, actionOf, Action.delivers, Event.piece, quoted]
    | _ => exact nothing _
  | stop tag => cases tag <;> exact nothing _
  | taskListMarker | other => exact nothing _
  | _ => rfl

end Actions

/-! ### Emitting -/

section Map

variable {β : Type} (emit : BlockBuilder → β)

def ParserState.emitting (state : ParserState BlockBuilder) : ParserState β :=
  ⟨state.blocks.map emit, state.current, state.listDepth, state.inBlockquote⟩

theorem flushCurrent_emitting (state : ParserState BlockBuilder) :
    flushCurrent emit (state.emitting emit) = (flushCurrent id state).emitting emit := by
  have ⟨blocks, current, listDepth, inBlockquote⟩ := state
  cases current with
  | none => rfl
  | some builder => simp [flushCurrent, ParserState.emitting]

theorem handleEvent_emitting (state : ParserState BlockBuilder) (event : Event × Span) :
    handleEvent emit (state.emitting emit) event = (handleEvent id state event).emitting emit := by
  have same : actionOf (state.emitting emit) event = actionOf state event := rfl
  rw [handleEvent_eq, handleEvent_eq, same]
  cases actionOf state event with
  | opens blockType listDepth span acceptsCheckbox =>
    rw [perform, startBlockBuilder, flushCurrent_emitting]
    rfl
  | replaces | marks | appends | moves => rfl
  | closes spanEnd =>
    exact flushCurrent_emitting emit
      { state with current := state.current.map (BlockBuilder.ending spanEnd) }

theorem emitted_eq_map (events : List (Event × Span)) :
    emitted emit events = (emitted id events).map emit := by
  have folded : ∀ state : ParserState BlockBuilder,
      events.foldl (handleEvent emit) (state.emitting emit)
        = (events.foldl (handleEvent id) state).emitting emit := by
    induction events with
    | nil => exact fun _ => rfl
    | cons event rest ih =>
      intro state
      rw [foldl_cons, handleEvent_emitting, ih, foldl_cons]
  have start : (ParserState.initial : ParserState β) = ParserState.initial.emitting emit := rfl
  rw [emitted, start, folded, flushCurrent_emitting]
  rfl

end Map

/-! ### What is kept -/

/-- **One action.** The block that leaves the slot is emitted or lost. -/
theorem blocks_perform (state : ParserState BlockBuilder) (action : Action) :
    (perform id state action).blocks ++ action.loses state
      = state.blocks ++ action.retires state := by
  have ⟨blocks, current, listDepth, inBlockquote⟩ := state
  cases current with
  | none => cases action <;> rfl
  | some builder => cases action <;> simp [perform, Action.loses, Action.retires, flushCurrent,
      startBlockBuilder, finishBlock, setCheckbox, appendText]

/-- The texts of the block in the slot are those it leaves with or still has. -/
theorem texts_perform (state : ParserState BlockBuilder) (action : Action) :
    state.current.toList.flatMap BlockBuilder.textParts ++ action.delivers state
      = (action.retires state).flatMap BlockBuilder.textParts
        ++ (perform id state action).current.toList.flatMap BlockBuilder.textParts := by
  have ⟨blocks, current, listDepth, inBlockquote⟩ := state
  cases current with
  | none => cases action <;> simp [perform, Action.delivers, Action.retires, flushCurrent,
      startBlockBuilder, finishBlock, setCheckbox, appendText, BlockBuilder.fresh]
  | some builder => cases action <;> simp [perform, Action.delivers, Action.retires, flushCurrent,
      startBlockBuilder, finishBlock, setCheckbox, appendText, BlockBuilder.fresh,
      BlockBuilder.append, BlockBuilder.ending, BlockBuilder.marked]

/-- **Every delivered text leaves with one block.** -/
theorem delivered_eq (events : List (Event × Span)) : ∀ state : ParserState BlockBuilder,
    state.current.toList.flatMap BlockBuilder.textParts ++ delivered state events
      = (retired state events).flatMap BlockBuilder.textParts := by
  induction events with
  | nil => exact fun _ => append_nil _
  | cons event rest ih =>
    intro state
    rw [delivered, retired, flatMap_append, ← ih, ← append_assoc,
      ← append_assoc, deliveredAt_eq, retiredAt_eq, handleEvent_eq, texts_perform]

section Kept

variable {γ : Type} (part : BlockBuilder → List γ)

def emittedFrom (state : ParserState BlockBuilder) (events : List (Event × Span)) :
    List BlockBuilder :=
  (flushCurrent id (events.foldl (handleEvent id) state)).blocks

theorem emittedFrom_nil (state : ParserState BlockBuilder) :
    emittedFrom state [] = state.blocks ++ state.current.toList := by
  have ⟨blocks, current, listDepth, inBlockquote⟩ := state
  cases current with
  | none => exact (append_nil _).symm
  | some builder => rfl

theorem parts_handleEvent (state : ParserState BlockBuilder) (event : Event × Span) :
    (handleEvent id state event).blocks.flatMap part
        ++ ((actionOf state event).loses state).flatMap part
      = state.blocks.flatMap part ++ (retiredAt state event).flatMap part := by
  rw [handleEvent_eq, retiredAt_eq, ← flatMap_append, blocks_perform, flatMap_append]

theorem length_emittedFrom_le (events : List (Event × Span)) : ∀ state : ParserState BlockBuilder,
      ((emittedFrom state events).flatMap part).length
        ≤ (state.blocks.flatMap part).length + ((retired state events).flatMap part).length := by
  induction events with
  | nil =>
    intro state
    rw [emittedFrom_nil, flatMap_append, length_append, retired]
  | cons event rest ih =>
    intro state
    have later := ih (handleEvent id state event)
    have here := congrArg List.length (parts_handleEvent part state event)
    rw [length_append, length_append] at here
    rw [retired, flatMap_append, length_append]
    change ((emittedFrom (handleEvent id state event) rest).flatMap part).length ≤ _
    omega

/-- **What is kept.** A block that leaves the slot is emitted exactly when it is not lost. -/
theorem emittedFrom_iff (events : List (Event × Span)) : ∀ state : ParserState BlockBuilder,
    (emittedFrom state events).flatMap part
        = state.blocks.flatMap part ++ (retired state events).flatMap part
      ↔ Throughout step (fun state event =>
          ∀ builder ∈ (actionOf state event).loses state, part builder = []) state events := by
  induction events with
  | nil =>
    intro state
    rw [emittedFrom_nil, flatMap_append, retired]
    exact ⟨fun _ => trivial, fun _ => rfl⟩
  | cons event rest ih =>
    intro state
    have unfolded : emittedFrom state (event :: rest)
        = emittedFrom (handleEvent id state event) rest := rfl
    have here := parts_handleEvent part state event
    have later := ih (handleEvent id state event)
    rw [unfolded, retired, flatMap_append, ← append_assoc, ← here]
    constructor
    · intro same
      have short := length_emittedFrom_le part rest (handleEvent id state event)
      have length := congrArg List.length same
      simp only [length_append] at length
      have nothing : ((actionOf state event).loses state).flatMap part = [] :=
        length_eq_zero_iff.1 (by omega)
      rw [nothing, append_nil] at same
      refine ⟨flatMap_eq_nil_iff.1 nothing, fun next steps => ?_⟩
      rw [← Option.some.inj steps]
      exact later.1 same
    · intro holds
      have nothing : ((actionOf state event).loses state).flatMap part = [] :=
        flatMap_eq_nil_iff.2 holds.1
      rw [nothing, append_nil]
      exact later.2 (holds.2 _ rfl)

end Kept

theorem filter_eq_flatMap (accepts : BlockBuilder → Bool) (builders : List BlockBuilder) :
    builders.filter accepts
      = builders.flatMap fun builder => if accepts builder then [builder] else [] := by
  induction builders with
  | nil => rfl
  | cons builder rest ih =>
    rw [filter_cons, flatMap_cons, ih]
    split_ifs <;> rfl

/-- **Exactly when no text is lost**: no quoted paragraph starts while the block has text or is an
item. -/
theorem keepsText_iff (events : List (Event × Span)) :
    KeepsText events ↔ Throughout step Spares .initial events := by
  have texts := emittedFrom_iff BlockBuilder.textParts events .initial
  have items := emittedFrom_iff
    (fun builder => if builder.acceptsCheckbox then [builder] else []) events .initial
  rw [← delivered_eq] at texts
  rw [← filter_eq_flatMap, ← filter_eq_flatMap, ← filter_eq_flatMap] at items
  have both : KeepsText events
      ↔ (emitted id events).flatMap BlockBuilder.textParts = delivered .initial events
        ∧ (emitted id events).filter BlockBuilder.acceptsCheckbox
          = (retired .initial events).filter BlockBuilder.acceptsCheckbox :=
    ⟨fun keeps => ⟨keeps.texts, keeps.items⟩, fun keeps =>
      ⟨fun isWord => emitted_eq_map (emitBlock isWord) events, keeps.1, keeps.2⟩⟩
  rw [both]
  refine (and_congr texts items).trans ⟨fun holds => ?_, fun spares => ⟨?_, ?_⟩⟩
  · refine throughout_mono (fun state event spared => ?_) (throughout_and holds.1 holds.2)
    refine spares_iff.2 fun builder isLost => ⟨spared.1 builder isLost, ?_⟩
    simpa using spared.2 builder isLost
  · exact throughout_mono (fun _ _ spared builder isLost =>
      (spares_iff.1 spared builder isLost).1) spares
  · refine throughout_mono (fun _ _ spared builder isLost => ?_) spares
    simp [(spares_iff.1 spared builder isLost).2]

/-- The events of a list item with a quote in it: `- text`, then `  > quote`. -/
def quoteInItem : List (Event × Span) :=
  [(.start .list, ⟨0, 16⟩), (.start .item, ⟨0, 16⟩), (.text "text".toList, ⟨2, 6⟩),
    (.start .blockQuote, ⟨9, 16⟩), (.start .paragraph, ⟨11, 16⟩), (.text "quote".toList, ⟨11, 16⟩),
    (.stop .paragraph, ⟨11, 16⟩), (.stop .blockQuote, ⟨9, 16⟩), (.stop .item, ⟨0, 16⟩),
    (.stop .list, ⟨0, 16⟩)]

theorem quoteInItem_loses : wellNested [] quoteInItem = true ∧ ¬ KeepsText quoteInItem := by
  refine ⟨by decide, fun keeps => ?_⟩
  have emittedTexts : (emitted id quoteInItem).flatMap BlockBuilder.textParts
      = ["quote".toList] := by decide
  have deliveredTexts : delivered .initial quoteInItem = ["text".toList, "quote".toList] := by
    decide
  have same := keeps.texts
  rw [emittedTexts, deliveredTexts] at same
  exact absurd same (by decide)

end Clepsydra.Vault.Blocks
