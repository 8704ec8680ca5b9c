import Clepsydra.Library.Utf8

/-!
Owns: regular expressions with groups and anchors, matched leftmost first.

Proves: the matches of a text are parts of it, in order, and do not overlap.
-/

namespace Clepsydra.Library.Regex

open Library.Utf8 List Option

/-! ### Patterns -/

inductive Pattern where
  | empty
  | start
  | finish
  | one (accepts : Char → Bool)
  | seq (first second : Pattern)
  | either (first second : Pattern)
  | star (body : Pattern)
  | group (index : Nat) (body : Pattern)

namespace Pattern

/-- `body+`. -/
def plus (body : Pattern) : Pattern := .seq body (.star body)

/-- `body?`. -/
def optional (body : Pattern) : Pattern := .either body .empty

/-- `body{count}`. -/
def times (body : Pattern) : Nat → Pattern
  | 0 => .empty
  | count + 1 => .seq body (times body count)

def literal : List Char → Pattern
  | [] => .empty
  | character :: rest => .seq (.one (· == character)) (literal rest)

end Pattern

structure Step where
  taken : List Char
  rest : List Char
  groups : List (Nat × List Char)
deriving DecidableEq

def Step.andThen (first second : Step) : Step :=
  ⟨first.taken ++ second.taken, second.rest, first.groups ++ second.groups⟩

def starSteps (body : Bool → List Char → List Step) : Nat → Bool → List Char → List Step
  | 0, _, text => [⟨[], text, []⟩]
  | rounds + 1, atStart, text =>
    ((body atStart text).filter fun first => !first.taken.isEmpty).flatMap
        (fun first => (starSteps body rounds false first.rest).map first.andThen)
      ++ [⟨[], text, []⟩]

def steps : Pattern → Bool → List Char → List Step
  | .empty, _, text => [⟨[], text, []⟩]
  | .start, atStart, text => if atStart then [⟨[], text, []⟩] else []
  | .finish, _, text => if text.isEmpty then [⟨[], text, []⟩] else []
  | .one accepts, _, text =>
    match text with
    | character :: rest => if accepts character then [⟨[character], rest, []⟩] else []
    | [] => []
  | .seq first second, atStart, text =>
    (steps first atStart text).flatMap fun begun =>
      (steps second (atStart && begun.taken.isEmpty) begun.rest).map begun.andThen
  | .either first second, atStart, text => steps first atStart text ++ steps second atStart text
  | .star body, atStart, text => starSteps (steps body) text.length atStart text
  | .group index body, atStart, text =>
    (steps body atStart text).map fun step =>
      { step with groups := step.groups ++ [(index, step.taken)] }

/-! ### Searching -/

/-- `Regex::captures`: what precedes the first match, and the match. -/
def find (pattern : Pattern) (atStart : Bool) : List Char → Option (List Char × Step)
  | [] => (steps pattern atStart []).head?.map fun step => ([], step)
  | character :: rest =>
    match (steps pattern atStart (character :: rest)).head? with
    | some step => some ([], step)
    | none => (find pattern false rest).map fun found => (character :: found.1, found.2)

structure Captures where
  start : Nat
  stop : Nat
  groups : List (Nat × List Char)
deriving DecidableEq

def groupOf (groups : List (Nat × List Char)) (index : Nat) : Option (List Char) :=
  (groups.reverse.find? fun group => group.1 == index).map Prod.snd

/-- The matches from a byte on. -/
def capturesFrom (pattern : Pattern) (offset : Nat) (inside : Option Nat) (atStart : Bool) :
    List Char → List Captures
  | [] =>
    if inside.isSome then []
    else
      (steps pattern atStart []).head?.toList.map fun step => ⟨offset, offset, step.groups⟩
  | character :: rest =>
    match inside with
    | some (left + 1) =>
      capturesFrom pattern (offset + character.utf8Size) (some left) false rest
    | _ =>
      match (steps pattern atStart (character :: rest)).head? with
      | none => capturesFrom pattern (offset + character.utf8Size) none false rest
      | some step =>
        if step.taken.isEmpty then
          (if inside.isSome then [] else [⟨offset, offset, step.groups⟩])
            ++ capturesFrom pattern (offset + character.utf8Size) none false rest
        else
          ⟨offset, offset + byteLen step.taken, step.groups⟩
            :: capturesFrom pattern (offset + character.utf8Size)
                (some (step.taken.length - 1)) false rest

/-- `Regex::captures_iter`. -/
def capturesIter (pattern : Pattern) (text : List Char) : List Captures :=
  capturesFrom pattern 0 none true text

/-! ### Steps -/

variable {atStart : Bool} {text : List Char} {step : Step}

theorem mem_steps_one {accepts : Char → Bool} : step ∈ steps (.one accepts) atStart text
      ↔ ∃ character rest, text = character :: rest ∧ accepts character = true
          ∧ step = ⟨[character], rest, []⟩ := by
  cases text with
  | nil => simp [steps]
  | cons character rest =>
    rw [steps]
    by_cases accepted : accepts character = true
    · simp [accepted]
    · simp [accepted]

theorem mem_steps_seq {first second : Pattern} : step ∈ steps (.seq first second) atStart text
      ↔ ∃ begun ∈ steps first atStart text,
          ∃ ended ∈ steps second (atStart && begun.taken.isEmpty) begun.rest,
            step = begun.andThen ended := by
  rw [steps, mem_flatMap]
  simp only [List.mem_map, eq_comm]

theorem mem_steps_group {index : Nat} {body : Pattern} :
    step ∈ steps (.group index body) atStart text ↔ ∃ inner ∈ steps body atStart text,
          step = { inner with groups := inner.groups ++ [(index, inner.taken)] } := by
  rw [steps, List.mem_map]
  simp only [eq_comm]

theorem join_starSteps {body : Bool → List Char → List Step}
    (joins : ∀ atStart text, ∀ step ∈ body atStart text, step.taken ++ step.rest = text)
    (rounds : Nat) : ∀ (atStart : Bool) (text : List Char),
      ∀ step ∈ starSteps body rounds atStart text, step.taken ++ step.rest = text := by
  induction rounds with
  | zero =>
    intro atStart text step member
    rw [mem_singleton.1 member]
    rfl
  | succ rounds ih =>
    intro atStart text step member
    rcases mem_append.1 member with repeated | isEnd
    · have ⟨first, isFirst, more⟩ := mem_flatMap.1 repeated
      obtain ⟨later, isLater, rfl⟩ := List.mem_map.1 more
      rw [Step.andThen, append_assoc, ih _ _ _ isLater]
      exact joins _ _ _ (mem_of_mem_filter isFirst)
    · rw [mem_singleton.1 isEnd]
      rfl

/-- **What a pattern takes and what it leaves are the text.** -/
theorem join_steps (pattern : Pattern) : ∀ (atStart : Bool) (text : List Char),
    ∀ step ∈ steps pattern atStart text, step.taken ++ step.rest = text := by
  have nothing : ∀ {condition : Bool} {text : List Char} {step : Step},
      step ∈ (if condition then [⟨[], text, []⟩] else ([] : List Step)) →
      step.taken ++ step.rest = text := by
    intro condition text step member
    split_ifs at member
    · rw [mem_singleton.1 member]
      rfl
    · exact nomatch member
  induction pattern with
  | empty =>
    intro atStart text step member
    rw [mem_singleton.1 member]
    rfl
  | start | finish => exact fun atStart text step member => nothing member
  | one accepts =>
    intro atStart text step member
    obtain ⟨character, rest, rfl, _, rfl⟩ := mem_steps_one.1 member
    rfl
  | seq first second firstJoins secondJoins =>
    intro atStart text step member
    obtain ⟨begun, isBegun, ended, isEnded, rfl⟩ := mem_steps_seq.1 member
    rw [Step.andThen, append_assoc, secondJoins _ _ _ isEnded]
    exact firstJoins _ _ _ isBegun
  | either first second firstJoins secondJoins =>
    intro atStart text step member
    rcases mem_append.1 member with isFirst | isSecond
    · exact firstJoins _ _ _ isFirst
    · exact secondJoins _ _ _ isSecond
  | star body joins => exact fun atStart text => join_starSteps joins _ _ _
  | group index body joins =>
    intro atStart text step member
    obtain ⟨inner, isInner, rfl⟩ := mem_steps_group.1 member
    exact joins atStart text inner isInner

theorem taken_of_literal (word : List Char) : ∀ {atStart : Bool} {text : List Char} {step : Step},
    step ∈ steps (.literal word) atStart text → step.taken = word ∧ step.groups = [] := by
  induction word with
  | nil =>
    intro atStart text step member
    rw [mem_singleton.1 member]
    exact ⟨rfl, rfl⟩
  | cons character rest ih =>
    intro atStart text step member
    obtain ⟨begun, isBegun, ended, isEnded, rfl⟩ := mem_steps_seq.1 member
    obtain ⟨other, more, rfl, accepted, rfl⟩ := mem_steps_one.1 isBegun
    have ⟨isTaken, noGroups⟩ := ih isEnded
    obtain rfl : other = character := by simpa using accepted
    exact ⟨by rw [Step.andThen, isTaken]; rfl, by rw [Step.andThen, noGroups]; rfl⟩

def Pattern.groupless : Pattern → Bool
  | .empty | .start | .finish | .one _ => true
  | .seq first second | .either first second => first.groupless && second.groupless
  | .star body => body.groupless
  | .group _ _ => false

theorem groups_starSteps {body : Bool → List Char → List Step}
    (none : ∀ atStart text, ∀ step ∈ body atStart text, step.groups = []) (rounds : Nat) :
    ∀ (atStart : Bool) (text : List Char),
      ∀ step ∈ starSteps body rounds atStart text, step.groups = [] := by
  induction rounds with
  | zero =>
    intro atStart text step member
    rw [mem_singleton.1 member]
  | succ rounds ih =>
    intro atStart text step member
    rcases mem_append.1 member with repeated | isEnd
    · have ⟨first, isFirst, more⟩ := mem_flatMap.1 repeated
      obtain ⟨later, isLater, rfl⟩ := List.mem_map.1 more
      rw [Step.andThen, none _ _ _ (mem_of_mem_filter isFirst), ih _ _ _ isLater]
      rfl
    · rw [mem_singleton.1 isEnd]

variable {pattern : Pattern}

theorem groups_of_groupless (groupless : pattern.groupless = true) :
    ∀ (atStart : Bool) (text : List Char), ∀ step ∈ steps pattern atStart text,
      step.groups = [] := by
  have nothing : ∀ {condition : Bool} {text : List Char} {step : Step},
      step ∈ (if condition then [⟨[], text, []⟩] else ([] : List Step)) → step.groups = [] := by
    intro condition text step member
    split_ifs at member
    · rw [mem_singleton.1 member]
    · exact nomatch member
  induction pattern with
  | empty =>
    intro atStart text step member
    rw [mem_singleton.1 member]
  | start | finish => exact fun atStart text step member => nothing member
  | one accepts =>
    intro atStart text step member
    obtain ⟨character, rest, rfl, _, rfl⟩ := mem_steps_one.1 member
    rfl
  | seq first second firstNone secondNone =>
    intro atStart text step member
    rw [Pattern.groupless, Bool.and_eq_true] at groupless
    obtain ⟨begun, isBegun, ended, isEnded, rfl⟩ := mem_steps_seq.1 member
    rw [Step.andThen, firstNone groupless.1 _ _ _ isBegun, secondNone groupless.2 _ _ _ isEnded]
    rfl
  | either first second firstNone secondNone =>
    intro atStart text step member
    rw [Pattern.groupless, Bool.and_eq_true] at groupless
    rcases mem_append.1 member with isFirst | isSecond
    · exact firstNone groupless.1 _ _ _ isFirst
    · exact secondNone groupless.2 _ _ _ isSecond
  | star body none =>
    exact fun atStart text => groups_starSteps (none groupless) _ _ _
  | group index body none => exact nomatch groupless

/-! ### The first match -/

/-- **The first match** is a part of the text. -/
theorem join_find : ∀ {atStart : Bool} {skipped : List Char}
    {step : Step}, find pattern atStart text = some (skipped, step) →
      text = skipped ++ step.taken ++ step.rest := by
  induction text with
  | nil =>
    intro atStart skipped step found
    have ⟨_, isHead, same⟩ := map_eq_some_iff.1 found
    obtain ⟨rfl, rfl⟩ := Prod.mk.inj same
    exact (join_steps pattern atStart [] _ (mem_of_head? isHead)).symm
  | cons character rest ih =>
    intro atStart skipped step found
    rw [find] at found
    cases isHead : (steps pattern atStart (character :: rest)).head? with
    | some here =>
      rw [isHead] at found
      obtain ⟨rfl, rfl⟩ := Prod.mk.inj (some.inj found)
      exact (join_steps pattern atStart _ _ (mem_of_head? isHead)).symm
    | none =>
      rw [isHead] at found
      have ⟨⟨others, later⟩, isLater, same⟩ := map_eq_some_iff.1 found
      obtain ⟨rfl, rfl⟩ := Prod.mk.inj same
      rw [ih isLater]
      rfl

/-! ### All matches -/

def resumeAt (offset : Nat) (inside : Option Nat) (text : List Char) : Nat :=
  offset + byteLen (text.take (inside.getD 0))

def Captures.IsPart (captures : Captures) (pattern : Pattern) (offset : Nat) (text : List Char) :
    Prop :=
  ∃ first taken last atStart,
    text = first ++ taken ++ last ∧ offset + byteLen first = captures.start
      ∧ captures.start + byteLen taken = captures.stop
      ∧ ⟨taken, last, captures.groups⟩ ∈ steps pattern atStart (taken ++ last)

theorem Captures.IsPart.cons {captures : Captures} {offset : Nat} {rest : List Char}
    {character : Char} (isPart : captures.IsPart pattern (offset + character.utf8Size) rest) :
    captures.IsPart pattern offset (character :: rest) := by
  have ⟨first, taken, last, atStart, isRest, isStart, isStop, isStep⟩ := isPart
  refine ⟨character :: first, taken, last, atStart, ?_, ?_, isStop, isStep⟩
  · rw [isRest]
    rfl
  · rw [byteLen_cons]
    omega

theorem isPart_of_step (isStep : step ∈ steps pattern atStart text) (offset : Nat) :
    Captures.IsPart ⟨offset, offset + byteLen step.taken, step.groups⟩ pattern offset text := by
  have joined := join_steps pattern atStart text step isStep
  refine ⟨[], step.taken, step.rest, atStart, joined.symm, rfl, rfl, ?_⟩
  rw [joined]
  exact isStep

/-- A match in what is still to do, after the text that precedes it. -/
theorem Captures.IsPart.split {captures : Captures} {done todo : List Char}
    (isPart : captures.IsPart pattern 0 text) (isText : text = done ++ todo)
    (after : byteLen done ≤ captures.start) :
    ∃ middle taken last atStart, todo = middle ++ taken ++ last
      ∧ byteLen (done ++ middle) = captures.start
      ∧ byteLen (done ++ middle ++ taken) = captures.stop
      ∧ ⟨taken, last, captures.groups⟩ ∈ steps pattern atStart (taken ++ last) := by
  have ⟨first, taken, last, atStart, isSplit, isStart, isStop, isStep⟩ := isPart
  rw [Nat.zero_add] at isStart
  obtain ⟨middle, rfl⟩ : ∃ middle, first = done ++ middle := by
    have same : done ++ todo = first ++ (taken ++ last) := by
      rw [← isText, isSplit, append_assoc]
    rcases append_eq_append_iff.1 same with ⟨middle, isFirst, _⟩ | ⟨middle, isDone, _⟩
    · exact ⟨middle, isFirst⟩
    · rw [isDone, byteLen_append] at after
      have nothing : middle.length = 0 := by
        have := length_le_byteLen middle
        omega
      rw [length_eq_zero_iff] at nothing
      exact ⟨[], by rw [isDone, nothing, append_nil, append_nil]⟩
  refine ⟨middle, taken, last, atStart, ?_, isStart, ?_, isStep⟩
  · apply @append_cancel_left _ done
    rw [← isText, isSplit]
    simp only [append_assoc]
  · rw [byteLen_append, isStart, isStop]

section Positions

variable {pattern : Pattern} {offset : Nat} {atStart : Bool} {character : Char} {rest : List Char}

theorem capturesFrom_inside (left : Nat) :
    capturesFrom pattern offset (some (left + 1)) atStart (character :: rest)
      = capturesFrom pattern (offset + character.utf8Size) (some left) false rest := rfl

theorem capturesFrom_of_none {inside : Option Nat} (ended : inside.getD 0 = 0)
    (isHead : (steps pattern atStart (character :: rest)).head? = none) :
    capturesFrom pattern offset inside atStart (character :: rest)
      = capturesFrom pattern (offset + character.utf8Size) none false rest := by
  cases inside with
  | none => simp only [capturesFrom, isHead]
  | some left =>
    obtain rfl : left = 0 := ended
    simp only [capturesFrom, isHead]

theorem capturesFrom_of_some {inside : Option Nat} (ended : inside.getD 0 = 0) {step : Step}
    (isHead : (steps pattern atStart (character :: rest)).head? = some step) :
    capturesFrom pattern offset inside atStart (character :: rest) = if step.taken.isEmpty then
          (if inside.isSome then [] else [⟨offset, offset, step.groups⟩])
            ++ capturesFrom pattern (offset + character.utf8Size) none false rest
        else
          ⟨offset, offset + byteLen step.taken, step.groups⟩
            :: capturesFrom pattern (offset + character.utf8Size)
                (some (step.taken.length - 1)) false rest := by
  cases inside with
  | none => simp only [capturesFrom, isHead]
  | some left =>
    obtain rfl : left = 0 := ended
    simp only [capturesFrom, isHead]

theorem inside_cases (inside : Option Nat) :
    (∃ left, inside = some (left + 1)) ∨ inside.getD 0 = 0 := by
  cases inside with
  | none => exact .inr rfl
  | some left =>
    cases left with
    | zero => exact .inr rfl
    | succ left => exact .inl ⟨left, rfl⟩

end Positions

theorem isPart_of_mem_capturesFrom :
    ∀ {offset : Nat} {inside : Option Nat} {atStart : Bool} {captures : Captures},
      captures ∈ capturesFrom pattern offset inside atStart text →
        captures.IsPart pattern offset text ∧ resumeAt offset inside text ≤ captures.start := by
  induction text with
  | nil =>
    intro offset inside atStart captures member
    rw [capturesFrom] at member
    split_ifs at member with ended
    · exact nomatch member
    · obtain ⟨step, isHead, rfl⟩ := List.mem_map.1 member
      have isStep := mem_of_head? (mem_toList.1 isHead)
      have nothing : step.taken = [] :=
        (append_eq_nil_iff.1 (join_steps pattern atStart [] step isStep)).1
      have isPart := isPart_of_step isStep offset
      rw [nothing, byteLen_nil] at isPart
      refine ⟨isPart, ?_⟩
      simp [resumeAt]
  | cons character rest ih =>
    intro offset inside atStart captures member
    -- The matches of the rest come after this character.
    have later : ∀ {inside : Option Nat},
        captures ∈ capturesFrom pattern (offset + character.utf8Size) inside false rest →
        captures.IsPart pattern offset (character :: rest)
          ∧ resumeAt (offset + character.utf8Size) inside rest ≤ captures.start := by
      intro inside inRest
      have found := ih inRest
      exact ⟨found.1.cons, found.2⟩
    rcases inside_cases inside with ⟨left, rfl⟩ | ended
    · rw [capturesFrom_inside] at member
      have ⟨isPart, after⟩ := later member
      refine ⟨isPart, ?_⟩
      simp only [resumeAt, getD_some, take_succ_cons, byteLen_cons] at after ⊢
      omega
    · have here : resumeAt offset inside (character :: rest) = offset := by
        rw [resumeAt, ended]
        rfl
      rw [here]
      have atLeast : ∀ {inside : Option Nat},
          resumeAt (offset + character.utf8Size) inside rest ≤ captures.start →
          offset ≤ captures.start := by
        intro inside after
        unfold resumeAt at after
        omega
      cases isHead : (steps pattern atStart (character :: rest)).head? with
      | none =>
        rw [capturesFrom_of_none ended isHead] at member
        have ⟨isPart, after⟩ := later member
        exact ⟨isPart, atLeast after⟩
      | some step =>
        rw [capturesFrom_of_some ended isHead] at member
        have isStep := mem_of_head? isHead
        have isPart := isPart_of_step isStep offset
        by_cases nothing : step.taken.isEmpty = true
        · rw [if_pos nothing, mem_append] at member
          rcases member with isHere | inRest
          · split_ifs at isHere
            · exact nomatch isHere
            · rw [mem_singleton.1 isHere]
              rw [List.isEmpty_iff.1 nothing, byteLen_nil] at isPart
              exact ⟨isPart, Nat.le_refl _⟩
          · have ⟨isPart, after⟩ := later inRest
            exact ⟨isPart, atLeast after⟩
        · rw [if_neg nothing] at member
          rcases mem_cons.1 member with rfl | inRest
          · exact ⟨isPart, Nat.le_refl _⟩
          · have ⟨isPart, after⟩ := later inRest
            exact ⟨isPart, atLeast after⟩

/-- **The matches of a text are in order and do not overlap.** -/
theorem pairwise_capturesFrom : ∀ {offset : Nat} {inside : Option Nat} {atStart : Bool},
      (capturesFrom pattern offset inside atStart text).Pairwise
        fun first second => first.stop ≤ second.start := by
  induction text with
  | nil =>
    intro offset inside atStart
    rw [capturesFrom]
    split_ifs
    · exact .nil
    · cases (steps pattern atStart []).head? with
      | none => exact .nil
      | some step => exact pairwise_singleton _ _
  | cons character rest ih =>
    intro offset inside atStart
    rcases inside_cases inside with ⟨left, rfl⟩ | ended
    · rw [capturesFrom_inside]
      exact ih
    · cases isHead : (steps pattern atStart (character :: rest)).head? with
      | none =>
        rw [capturesFrom_of_none ended isHead]
        exact ih
      | some step =>
        rw [capturesFrom_of_some ended isHead]
        by_cases nothing : step.taken.isEmpty = true
        · rw [if_pos nothing]
          split_ifs
          · exact ih
          · refine pairwise_cons.2 ⟨fun captures inRest => ?_, ih⟩
            have after := (isPart_of_mem_capturesFrom inRest).2
            unfold resumeAt at after
            dsimp only
            omega
        · rw [if_neg nothing]
          refine pairwise_cons.2 ⟨fun captures inRest => ?_, ih⟩
          have after := (isPart_of_mem_capturesFrom inRest).2
          have joined := join_steps pattern atStart _ step (mem_of_head? isHead)
          -- What the match took after this character is where the next one may start.
          obtain ⟨others, isTaken⟩ : ∃ others, step.taken = character :: others := by
            cases isTaken : step.taken with
            | nil =>
              rw [isTaken] at nothing
              exact absurd rfl nothing
            | cons head others =>
              rw [isTaken] at joined
              exact ⟨others, by rw [(List.cons.inj joined).1]⟩
          rw [isTaken] at joined
          have isRest : rest = others ++ step.rest := (List.cons.inj joined).2.symm
          rw [isTaken, isRest, resumeAt, getD_some, length_cons,
            Nat.add_sub_cancel, take_left] at after
          rw [isTaken, byteLen_cons]
          dsimp only
          omega

end Clepsydra.Library.Regex
