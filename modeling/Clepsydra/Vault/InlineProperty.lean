import Clepsydra.Library.Regex
import Clepsydra.Vault.BlockTree
import Clepsydra.Vault.Canonical

/-!
Owns: what is taken out of the text of a block: identifier, inline properties, cancelled mark.
-/

namespace Clepsydra.Vault.Blocks

open Library Library.Regex Library.Utf8 List Option

/-! ### Patterns -/

def isAsciiAlphanumeric (character : Char) : Bool := character.isAlphanum

/-- `\s+\^([A-Za-z0-9]{10,12})\s*$`. -/
def blockIdPattern : Pattern :=
  let space := Pattern.one isWhitespace
  let digit := Pattern.one isAsciiAlphanumeric
  .seq space.plus <| .seq (.one (· == '^')) <|
    .seq (.group 1 (.seq (digit.times 10) (.optional (.seq digit (.optional digit))))) <|
      .seq (.star space) .finish

/-- `\[([A-Za-z_][\w-]*)::[ \t]+((?:\[\[[^\]\r\n]+\]\]|[^\[\]\r\n])+)\]`. -/
def inlinePropertyPattern (isWord : Char → Bool) : Pattern :=
  let key := Pattern.seq (.one fun character => character.isAlpha || character == '_')
    (.star (.one fun character => isWord character || character == '-'))
  let linked := Pattern.seq (.literal ['[', '[']) <|
    .seq (.plus (.one fun character => character != ']' && character != '\r' && character != '\n'))
      (.literal [']', ']'])
  let plain := Pattern.one fun character =>
    character != '[' && character != ']' && character != '\r' && character != '\n'
  .seq (.one (· == '[')) <| .seq (.group 1 key) <| .seq (.literal [':', ':']) <|
    .seq (.plus (.one fun character => character == ' ' || character == '\t')) <|
      .seq (.group 2 (.plus (.either linked plain))) (.one (· == ']'))

/-- `^\[-\]\s*`. -/
def cancelledCheckboxPattern : Pattern :=
  .seq .start (.seq (.literal ['[', '-', ']']) (.star (.one isWhitespace)))

/-! ### Extraction -/

def capture (groups : List (Nat × List Char)) (index : Nat) : List Char :=
  (groupOf groups index).getD []

/-- `str::trim`. -/
def trim (text : List Char) : List Char :=
  ((text.dropWhile isWhitespace).reverse.dropWhile isWhitespace).reverse

def extractBlockId (text : List Char) : Option (List Char) × List Char :=
  match find blockIdPattern true text with
  | some (before, step) => (some (capture step.groups 1), before)
  | none => (none, text)

/-- Whether a text begins with `[-]`, and the text after it. -/
def extractCancelledCheckbox (text : List Char) : Bool × List Char :=
  match find cancelledCheckboxPattern true text with
  | some (_, step) => (true, step.rest)
  | none => (false, text)

/-- `&text[start..stop]`. -/
def slice (text : List Char) (start stop : Nat) : List Char := (getRange text start stop).getD []

def overlaps (removedPrefix : Nat) (captures : Captures) (code : Span) : Bool :=
  captures.start + removedPrefix < code.stop && code.start < captures.stop + removedPrefix

structure Extraction where
  result : List Char
  lastEnd : Nat
  props : OrderedMap (List Char) (List Char)

def extractStep (text : List Char) (codeRanges : List Span) (removedPrefix : Nat)
    (state : Extraction) (captures : Captures) : Extraction :=
  if codeRanges.any (overlaps removedPrefix captures) then state
  else
    { result := state.result ++ slice text state.lastEnd captures.start
      lastEnd := captures.stop
      props := state.props.insert (capture captures.groups 1) (trim (capture captures.groups 2)) }

def extractInlineProperties (isWord : Char → Bool) (text : List Char) (codeRanges : List Span)
    (removedPrefix : Nat) : OrderedMap (List Char) (List Char) × List Char :=
  let state := (capturesIter (inlinePropertyPattern isWord) text).foldl
    (extractStep text codeRanges removedPrefix) ⟨[], 0, .empty⟩
  if state.props.entries.isEmpty then (state.props, text)
  else (state.props, state.result ++ (getFrom text state.lastEnd).getD [])

structure Postprocessed where
  content : List Char
  blockId : Option (List Char)
  properties : OrderedMap (List Char) (List Char)

def postprocessContent (isWord : Char → Bool) (text : List Char) (codeRanges : List Span)
    (removedPrefix : Nat) : Postprocessed :=
  let (blockId, text) := extractBlockId text
  let (properties, text) := extractInlineProperties isWord text codeRanges removedPrefix
  ⟨trim text, blockId, properties⟩

/-! ### What extraction is for -/

def outside (removed : List Captures) (offset : Nat) : List Char → List Char
  | [] => []
  | character :: rest =>
    if removed.any fun captures => captures.start ≤ offset && offset < captures.stop then
      outside removed (offset + character.utf8Size) rest
    else character :: outside removed (offset + character.utf8Size) rest

def inlineProperties (isWord : Char → Bool) (text : List Char) (codeRanges : List Span)
    (removedPrefix : Nat) : List Captures :=
  (capturesIter (inlinePropertyPattern isWord) text).filter fun captures =>
    !codeRanges.any (overlaps removedPrefix captures)

def lastValue (found : List Captures) (key : List Char) : Option (List Char) :=
  (found.reverse.find? fun captures => capture captures.groups 1 == key).map fun captures =>
    trim (capture captures.groups 2)

/-! ### Matches -/

/-- **A match is `[key:: value]`.** Both groups take part in it. -/
theorem inlineProperty_shape {isWord : Char → Bool} {atStart : Bool} {text : List Char} {step : Step}
    (isStep : step ∈ steps (inlinePropertyPattern isWord) atStart text) :
    ∃ key blanks raw, step.taken = ['['] ++ key ++ [':', ':'] ++ blanks ++ raw ++ [']']
        ∧ step.groups = [(1, key), (2, raw)] := by
  obtain ⟨opening, isOpening, _, afterOpening, rfl⟩ := mem_steps_seq.1 isStep
  obtain ⟨key, isKey, _, afterKey, rfl⟩ := mem_steps_seq.1 afterOpening
  obtain ⟨colons, isColons, _, afterColons, rfl⟩ := mem_steps_seq.1 afterKey
  obtain ⟨blanks, isBlanks, _, afterBlanks, rfl⟩ := mem_steps_seq.1 afterColons
  obtain ⟨value, isValue, closing, isClosing, rfl⟩ := mem_steps_seq.1 afterBlanks
  obtain ⟨bracket, _, _, opens, rfl⟩ := mem_steps_one.1 isOpening
  obtain rfl : bracket = '[' := by simpa using opens
  obtain ⟨keyText, isKeyText, rfl⟩ := mem_steps_group.1 isKey
  have ⟨colonsTaken, colonsGroups⟩ := taken_of_literal _ isColons
  have blanksGroups := groups_of_groupless (by rfl) _ _ _ isBlanks
  obtain ⟨raw, isRaw, rfl⟩ := mem_steps_group.1 isValue
  obtain ⟨last, _, _, closes, rfl⟩ := mem_steps_one.1 isClosing
  obtain rfl : last = ']' := by simpa using closes
  have keyGroups := groups_of_groupless (by rfl) _ _ _ isKeyText
  have rawGroups := groups_of_groupless (by rfl) _ _ _ isRaw
  refine ⟨keyText.taken, blanks.taken, raw.taken, ?_, ?_⟩
  · simp [Step.andThen, colonsTaken]
  · simp [Step.andThen, colonsGroups, blanksGroups, keyGroups, rawGroups]

/-! ### Text outside matches -/

theorem outside_append (removed : List Captures) (offset : Nat) (first second : List Char) :
    outside removed offset (first ++ second)
      = outside removed offset first ++ outside removed (offset + byteLen first) second := by
  induction first generalizing offset with
  | nil => rfl
  | cons character rest ih =>
    rw [cons_append, outside, outside, ih, byteLen_cons, Nat.add_assoc]
    split_ifs
    · rfl
    · rfl

theorem outside_eq_self {removed : List Captures} {offset : Nat} {text : List Char}
    (apart : ∀ captures ∈ removed,
      offset + byteLen text ≤ captures.start ∨ captures.stop ≤ offset) :
    outside removed offset text = text := by
  induction text generalizing offset with
  | nil => rfl
  | cons character rest ih =>
    have positive := character.utf8Size_pos
    rw [byteLen_cons] at apart
    have uncovered : (removed.any fun captures =>
        captures.start ≤ offset && offset < captures.stop) = false := by
      rw [List.any_eq_false]
      intro captures member covered
      rw [Bool.and_eq_true, decide_eq_true_eq, decide_eq_true_eq] at covered
      rcases apart captures member with below | above
      · omega
      · omega
    rw [outside, if_neg (by rw [uncovered]; exact Bool.false_ne_true), ih]
    intro captures member
    rcases apart captures member with below | above
    · exact .inl (by omega)
    · exact .inr (by omega)

theorem outside_eq_nil {removed : List Captures} {captures : Captures} (member : captures ∈ removed)
    {offset : Nat} {text : List Char} (starts : captures.start ≤ offset)
    (stops : offset + byteLen text ≤ captures.stop) : outside removed offset text = [] := by
  induction text generalizing offset with
  | nil => rfl
  | cons character rest ih =>
    have positive := character.utf8Size_pos
    rw [byteLen_cons] at stops
    have covered : (removed.any fun captures =>
        captures.start ≤ offset && offset < captures.stop) = true := by
      refine List.any_eq_true.2 ⟨captures, member, ?_⟩
      rw [Bool.and_eq_true, decide_eq_true_eq, decide_eq_true_eq]
      omega
    rw [outside, if_pos covered]
    exact ih (by omega) (by omega)

theorem outside_cons_of_stop_le {captures : Captures} {removed : List Captures} {offset : Nat}
    {text : List Char} (before : captures.stop ≤ offset) :
    outside (captures :: removed) offset text = outside removed offset text := by
  induction text generalizing offset with
  | nil => rfl
  | cons character rest ih =>
    have uncovered : (decide (captures.start ≤ offset) && decide (offset < captures.stop))
        = false := by
      rw [Bool.and_eq_false_iff, decide_eq_false_iff_not, decide_eq_false_iff_not]
      omega
    rw [outside, outside, any_cons, uncovered, Bool.false_or, ih (by omega)]

/-! ### The loop -/

def gaps (text : List Char) (lastEnd : Nat) : List Captures → List Char
  | [] => (getFrom text lastEnd).getD []
  | captures :: rest =>
    slice text lastEnd captures.start ++ gaps text captures.stop rest

/-- **Between the matches is outside them.** -/
theorem gaps_eq_outside {pattern : Pattern} {text done : List Char} :
    ∀ {removed : List Captures} {todo : List Char}, text = done ++ todo →
      (∀ captures ∈ removed, captures.IsPart pattern 0 text ∧ byteLen done ≤ captures.start) →
      (removed.Pairwise fun first second => first.stop ≤ second.start) →
      gaps text (byteLen done) removed = outside removed (byteLen done) todo := by
  intro removed
  induction removed generalizing done with
  | nil =>
    intro todo isText _ _
    rw [gaps, getFrom_eq_some_iff.2 ⟨done, isText, rfl⟩, getD_some,
      outside_eq_self (forall_mem_nil _)]
  | cons captures removed ih =>
    intro todo isText parts ordered
    rw [forall_mem_cons] at parts
    have ⟨before, orderedRest⟩ := pairwise_cons.1 ordered
    have ⟨⟨isPart, after⟩, partsRest⟩ := parts
    have ⟨middle, taken, last, _, isTodo, isStart, isStop, _⟩ := isPart.split isText after
    have isSplit : text = done ++ middle ++ taken ++ last := by
      rw [isText, isTodo]
      simp only [append_assoc]
    have isSlice : slice text (byteLen done) captures.start = middle := by
      have found := getRange_append done middle (taken ++ last)
      rw [← byteLen_append, isStart, ← append_assoc, ← isSplit] at found
      rw [slice, found, getD_some]
    have rest := @ih (done ++ middle ++ taken) last isSplit
      (fun other member => ⟨(partsRest other member).1, isStop ▸ before other member⟩) orderedRest
    rw [isStop] at rest
    rw [byteLen_append, isStart] at isStop
    rw [gaps, isSlice, rest, isTodo, outside_append, outside_append, byteLen_append,
      ← Nat.add_assoc, ← byteLen_append, isStart, isStop]
    have keeps : outside (captures :: removed) (byteLen done) middle = middle := by
      apply outside_eq_self
      intro other member
      rw [← byteLen_append, isStart]
      rcases mem_cons.1 member with rfl | inRest
      · exact .inl (Nat.le_refl _)
      · have := before other inRest
        exact .inl (by omega)
    have drops : outside (captures :: removed) captures.start taken = [] :=
      outside_eq_nil mem_cons_self (Nat.le_refl _) (by omega)
    rw [keeps, drops, append_nil, outside_cons_of_stop_le (Nat.le_refl _)]

variable {isWord : Char → Bool} {text : List Char} {codeRanges : List Span} {removedPrefix : Nat}

theorem foldl_extractStep (found : List Captures) : ∀ state,
    found.foldl (extractStep text codeRanges removedPrefix) state
      = (found.filter fun captures => !codeRanges.any (overlaps removedPrefix captures)).foldl
          (extractStep text [] removedPrefix) state := by
  induction found with
  | nil => exact fun _ => rfl
  | cons captures rest ih =>
    intro state
    rw [foldl_cons, ih, filter_cons]
    by_cases inCode : codeRanges.any (overlaps removedPrefix captures) = true
    · rw [extractStep, if_pos inCode, if_neg (by simp [inCode])]
    · rw [extractStep, if_neg inCode, if_pos (by simpa using inCode), foldl_cons]
      rfl

theorem foldl_extractStep_nil (removed : List Captures) : ∀ state,
    let final := removed.foldl (extractStep text [] removedPrefix) state
    final.result ++ (getFrom text final.lastEnd).getD []
        = state.result ++ gaps text state.lastEnd removed
      ∧ ∀ key, final.props.get key = (lastValue removed key).or (state.props.get key) := by
  induction removed with
  | nil => exact fun _ => ⟨rfl, fun _ => rfl⟩
  | cons captures rest ih =>
    intro state
    have ⟨isText, isProps⟩ := ih (extractStep text [] removedPrefix state captures)
    refine ⟨?_, ?_⟩
    · rw [foldl_cons, isText, gaps, ← append_assoc]
      rfl
    · intro key
      rw [foldl_cons, isProps, extractStep, any_nil, if_neg Bool.false_ne_true,
        OrderedMap.get_insert, lastValue, lastValue, reverse_cons, find?_append]
      cases rest.reverse.find? fun captures => capture captures.groups 1 == key with
      | some later => rfl
      | none =>
        by_cases isKey : key = capture captures.groups 1
        · simp [isKey]
        · have notKey : (capture captures.groups 1 == key) = false := by
            rw [beq_eq_false_iff_ne]
            exact Ne.symm isKey
          simp [isKey, notKey]

theorem lastValue_ne_none {found : List Captures} (some : found ≠ []) :
    ∃ key, lastValue found key ≠ none := by
  have ⟨captures, member⟩ := exists_mem_of_ne_nil found some
  refine ⟨capture captures.groups 1, fun none => ?_⟩
  rw [lastValue, map_eq_none_iff, find?_eq_none] at none
  exact none captures (mem_reverse.2 member) (beq_self_eq_true _)

/-- **Inline properties.** The matches that overlap no code are taken out, and each key has the
value of its last such match. -/
theorem extractInlineProperties_eq (isWord : Char → Bool) (text : List Char)
    (codeRanges : List Span) (removedPrefix : Nat) :
    (extractInlineProperties isWord text codeRanges removedPrefix).2
        = outside (inlineProperties isWord text codeRanges removedPrefix) 0 text
      ∧ ∀ key, (extractInlineProperties isWord text codeRanges removedPrefix).1.get key
          = lastValue (inlineProperties isWord text codeRanges removedPrefix) key := by
  have loop := @foldl_extractStep text codeRanges removedPrefix
    (capturesIter (inlinePropertyPattern isWord) text) ⟨[], 0, .empty⟩
  change _ = (inlineProperties isWord text codeRanges removedPrefix).foldl _ _ at loop
  obtain ⟨isText, isProps⟩ := @foldl_extractStep_nil text removedPrefix
    (inlineProperties isWord text codeRanges removedPrefix) ⟨[], 0, .empty⟩
  have isOutside : gaps text 0 (inlineProperties isWord text codeRanges removedPrefix)
      = outside (inlineProperties isWord text codeRanges removedPrefix) 0 text := by
    refine @gaps_eq_outside (inlinePropertyPattern isWord) text [] _ text rfl ?_ ?_
    · intro captures member
      exact ⟨(isPart_of_mem_capturesFrom (mem_of_mem_filter member)).1, Nat.zero_le _⟩
    · exact pairwise_capturesFrom.sublist filter_sublist
  by_cases none : inlineProperties isWord text codeRanges removedPrefix = []
  · rw [extractInlineProperties, loop, none]
    exact ⟨(outside_eq_self (forall_mem_nil _)).symm, fun _ => rfl⟩
  · rw [extractInlineProperties, loop]
    have properties : ¬ ((inlineProperties isWord text codeRanges removedPrefix).foldl
        (extractStep text [] removedPrefix) ⟨[], 0, .empty⟩).props.entries.isEmpty = true := by
      intro empty
      obtain ⟨key, some⟩ := lastValue_ne_none none
      have isNone := isProps key
      rw [OrderedMap.get, List.isEmpty_iff.1 empty, OrderedMap.get_empty, or_none]
        at isNone
      exact some isNone.symm
    rw [if_neg properties]
    refine ⟨isText.trans isOutside, fun key => ?_⟩
    rw [isProps, OrderedMap.get_empty, or_none]

end Clepsydra.Vault.Blocks
