import Mathlib

/-!
Owns: the lines of a text, and machines that tell which lines make up the blocks of one kind.

Proves: a text that is cut between two lines is read part by part, when no block runs over.
-/

namespace Clepsydra.Library.LineScan

open List Option

/-! ### Lines -/

variable {content ending next : List Char}

structure Line where
  content : List Char
  ending : List Char
deriving DecidableEq

def Line.text (line : Line) : List Char := line.content ++ line.ending

/-- The lines of a text, which end in `\n`, `\r\n` or `\r`, or at the end of the text. -/
@[grind =] def lines : List Char → List Line
  | [] => []
  | '\n' :: rest => ⟨[], ['\n']⟩ :: lines rest
  | '\r' :: '\n' :: rest => ⟨[], ['\r', '\n']⟩ :: lines rest
  | '\r' :: rest => ⟨[], ['\r']⟩ :: lines rest
  | character :: rest =>
    match lines rest with
    | [] => [⟨[character], []⟩]
    | first :: others => ⟨character :: first.content, first.ending⟩ :: others

def flat (parts : List Line) : List Char := parts.flatMap Line.text

@[simp] theorem flat_nil : flat [] = [] := rfl

@[simp] theorem flat_cons (line : Line) (rest : List Line) :
    flat (line :: rest) = line.text ++ flat rest := rfl

@[simp] theorem flat_append (first second : List Line) :
    flat (first ++ second) = flat first ++ flat second :=
  flatMap_append

def IsPlain (text : List Char) : Prop := ∀ character ∈ text, character ≠ '\n' ∧ character ≠ '\r'

variable {text : List Char}

theorem isPlain_of_all
    (plain : text.all (fun character => character != '\n' && character != '\r') = true) :
    IsPlain text := by
  intro character member
  simpa using List.all_eq_true.1 plain character member

inductive Ends (content : List Char) : List Char → List Char → Prop
  | newline (next : List Char) : Ends content ['\n'] next
  | both (next : List Char) : Ends content ['\r', '\n'] next
  | carriage {next : List Char} (alone : next.head? ≠ some '\n') : Ends content ['\r'] next
  | last (nonempty : content ≠ []) : Ends content [] []

theorem Ends.cons (ends : Ends content ending next) (character : Char) :
    Ends (character :: content) ending next := by
  cases ends with
  | newline => exact .newline next
  | both => exact .both next
  | carriage alone => exact .carriage alone
  | last => exact .last (cons_ne_nil _ _)

theorem Ends.replace {other : List Char} (ends : Ends content ending next) (nonempty : other ≠ []) :
    Ends other ending next := by
  cases ends with
  | newline => exact .newline next
  | both => exact .both next
  | carriage alone => exact .carriage alone
  | last => exact .last nonempty

theorem lines_cons_plain {character : Char} (plain : character ≠ '\n' ∧ character ≠ '\r')
    (rest : List Char) :
    lines (character :: rest) = match lines rest with
      | [] => [⟨[character], []⟩]
      | first :: others => ⟨character :: first.content, first.ending⟩ :: others := by
  rw [lines.eq_def]
  split
  · exact absurd ‹_› (cons_ne_nil _ _)
  · rename_i same
    exact absurd (List.cons.inj same).1 plain.1
  · rename_i same
    exact absurd (List.cons.inj same).1 plain.2
  · rename_i same
    exact absurd (List.cons.inj same).1 plain.2
  · rename_i same
    obtain ⟨rfl, rfl⟩ := List.cons.inj same
    rfl

theorem lines_carriage {rest : List Char} (alone : rest.head? ≠ some '\n') :
    lines ('\r' :: rest) = ⟨[], ['\r']⟩ :: lines rest := by
  cases rest with
  | nil => rfl
  | cons first rest =>
    have notNewline : first ≠ '\n' := fun same => alone (congrArg some same)
    rw [lines.eq_def]
    split
    · exact absurd ‹_› (cons_ne_nil _ _)
    · rename_i same
      exact absurd (List.cons.inj same).1 (by decide)
    · rename_i same
      exact absurd (List.cons.inj (List.cons.inj same).2).1 notNewline
    · rename_i same
      rw [(List.cons.inj same).2]
    · rename_i _ _ notCarriage same
      exact absurd (List.cons.inj same).1.symm (by assumption)

theorem lines_append_of_ends (plain : IsPlain content) (ends : Ends content ending next) :
    lines (content ++ ending ++ next) = ⟨content, ending⟩ :: lines next := by
  induction content with
  | nil =>
    cases ends with
    | newline | both => rfl
    | carriage alone => exact lines_carriage alone
    | last nonempty => exact absurd rfl nonempty
  | cons character content ih =>
    have isPlain := forall_mem_cons.1 plain
    rw [cons_append, cons_append, lines_cons_plain isPlain.1]
    by_cases single : content = [] ∧ ending = []
    · obtain ⟨rfl, rfl⟩ := single
      cases ends
      rfl
    · have shorter : Ends content ending next := by
        cases ends with
        | newline => exact .newline next
        | both => exact .both next
        | carriage alone => exact .carriage alone
        | last => exact .last fun empty => single ⟨empty, rfl⟩
      rw [ih isPlain.2 shorter]

theorem lines_ne_nil (some : text ≠ []) : lines text ≠ [] := by
  obtain ⟨character, text, rfl⟩ := exists_cons_of_ne_nil some
  by_cases isNewline : character = '\n'
  · subst isNewline
    exact cons_ne_nil _ _
  · by_cases isCarriage : character = '\r'
    · subst isCarriage
      cases text with
      | nil => exact cons_ne_nil _ _
      | cons second text =>
        by_cases alone : second = '\n'
        · subst alone
          exact cons_ne_nil _ _
        · have notNewline : (second :: text).head? ≠ Option.some '\n' :=
            fun same => alone (Option.some.inj same)
          rw [lines_carriage notNewline]
          exact cons_ne_nil _ _
    · rw [lines_cons_plain ⟨isNewline, isCarriage⟩]
      cases lines text <;> exact cons_ne_nil _ _

theorem Ends.length_pos (ends : Ends content ending next) : 0 < (content ++ ending).length := by
  rw [length_append]
  cases ends with
  | newline | both | carriage => exact Nat.lt_of_lt_of_le (by decide) (Nat.le_add_left _ _)
  | last nonempty => exact Nat.lt_of_lt_of_le (length_pos_iff.2 nonempty) (Nat.le_add_right _ _)

variable {line : Line}

theorem exists_of_lines_cons {rest : List Line} (found : lines text = line :: rest) :
    ∃ next, text = line.text ++ next ∧ IsPlain line.content ∧ Ends line.content line.ending next
      ∧ lines next = rest := by
  induction text generalizing line rest with
  | nil => exact nomatch found
  | cons character text ih =>
    by_cases isNewline : character = '\n'
    · subst isNewline
      obtain ⟨rfl, same⟩ := List.cons.inj found
      exact ⟨text, rfl, nofun, .newline text, same⟩
    · by_cases isCarriage : character = '\r'
      · subst isCarriage
        by_cases alone : text.head? = some '\n'
        · obtain ⟨text, rfl⟩ : ∃ others, text = '\n' :: others :=
            ⟨text.tail, (List.cons_head?_tail alone).symm⟩
          obtain ⟨rfl, same⟩ := List.cons.inj found
          exact ⟨text, rfl, nofun, .both text, same⟩
        · rw [lines_carriage alone] at found
          obtain ⟨rfl, same⟩ := List.cons.inj found
          exact ⟨text, rfl, nofun, .carriage alone, same⟩
      · have plain : character ≠ '\n' ∧ character ≠ '\r' := ⟨isNewline, isCarriage⟩
        rw [lines_cons_plain plain] at found
        cases more : lines text with
        | nil =>
          rw [more] at found
          obtain ⟨rfl, rfl⟩ := List.cons.inj found
          cases text with
          | nil =>
            refine ⟨[], rfl, ?_, .last (cons_ne_nil _ _), rfl⟩
            exact forall_mem_singleton.2 plain
          | cons second text => exact absurd more (lines_ne_nil (cons_ne_nil _ _))
        | cons first others =>
          rw [more] at found
          obtain ⟨rfl, rfl⟩ := List.cons.inj found
          have ⟨next, same, isPlain, ends, rest⟩ := ih more
          refine ⟨next, ?_, forall_mem_cons.2 ⟨plain, isPlain⟩, ends.cons character, rest⟩
          rw [same]
          rfl

theorem flat_lines (text : List Char) : flat (lines text) = text := by
  cases parts : lines text with
  | nil =>
    by_contra some
    exact lines_ne_nil (fun empty => some empty.symm) parts
  | cons line rest =>
    have ⟨next, same, _, ends, others⟩ := exists_of_lines_cons parts
    have shorter : next.length < text.length := by
      have long := ends.length_pos
      rw [same, length_append, Line.text]
      omega
    rw [← others, flat_cons, flat_lines next, same]
termination_by text.length

theorem lines_append (text next : List Char) :
    lines (text ++ '\n' :: next) = lines (text ++ ['\n']) ++ lines next := by
  induction text with
  | nil => rfl
  | cons character text ih =>
    rw [cons_append, cons_append]
    by_cases isNewline : character = '\n'
    · subst isNewline
      exact congrArg (⟨[], ['\n']⟩ :: ·) ih
    · by_cases isCarriage : character = '\r'
      · subst isCarriage
        cases text with
        | nil => rfl
        | cons second text =>
          by_cases alone : second = '\n'
          · subst alone
            exact congrArg (⟨[], ['\r', '\n']⟩ :: ·) (List.cons.inj ih).2
          · rw [cons_append, cons_append] at ih ⊢
            have notNewline : ∀ rest : List Char, (second :: rest).head? ≠ some '\n' :=
              fun _ same => alone (Option.some.inj same)
            rw [lines_carriage (notNewline _), lines_carriage (notNewline _), ih]
            rfl
      · have plain : character ≠ '\n' ∧ character ≠ '\r' := ⟨isNewline, isCarriage⟩
        have some : text ++ ['\n'] ≠ [] := append_ne_nil_of_right_ne_nil _ (by decide)
        have ⟨first, others, parts⟩ := exists_cons_of_ne_nil (lines_ne_nil some)
        rw [lines_cons_plain plain, lines_cons_plain plain, ih, parts]
        rfl

theorem content_within (member : line ∈ lines text) :
    line.content <:+: text := by
  have ⟨first, second, parts⟩ := append_of_mem member
  refine ⟨flat first, line.ending ++ flat second, ?_⟩
  rw [← flat_lines text, parts, flat_append, flat_cons, Line.text]
  simp only [append_assoc]

variable {first second : List Line}

theorem eq_of_position {first' second' : List Line} {line' : Line}
    (same : first ++ line :: second = first' ++ line' :: second') {offset : Nat}
    (inside : offset < line.text.length) (some : 0 < line'.text.length)
    (position : (flat first).length + offset = (flat first').length) :
    first = first' ∧ line = line' ∧ second = second' := by
  rcases append_eq_append_iff.1 same with ⟨others, isLater, rest⟩ | ⟨others, isEarlier, rest⟩
  · cases others with
    | nil =>
      rw [append_nil] at isLater
      rw [nil_append] at rest
      exact ⟨isLater.symm, List.cons.inj rest⟩
    | cons head others =>
      obtain ⟨rfl, _⟩ := List.cons.inj rest
      rw [isLater, flat_append, flat_cons, length_append, length_append] at position
      omega
  · cases others with
    | nil =>
      rw [append_nil] at isEarlier
      rw [nil_append] at rest
      have ⟨sameLine, sameRest⟩ := List.cons.inj rest
      exact ⟨isEarlier, sameLine.symm, sameRest.symm⟩
    | cons head others =>
      obtain ⟨rfl, _⟩ := List.cons.inj rest
      rw [isEarlier, flat_append, flat_cons, length_append, length_append] at position
      omega

variable (parts : lines text = first ++ line :: second)

include parts

theorem lines_flat_append {other : List Char} (notNewline : other.head? ≠ some '\n') :
    lines (flat first ++ other) = first ++ lines other := by
  induction first generalizing text with
  | nil => rfl
  | cons head first ih =>
    have ⟨next, _, plain, ends, rest⟩ := exists_of_lines_cons parts
    have replaced : Ends head.content head.ending (flat first ++ other) := by
      cases ending : head.ending with
      | nil =>
        rw [ending] at ends
        cases ends
        exact absurd rest.symm (append_ne_nil_of_right_ne_nil _ (cons_ne_nil _ _))
      | cons character others =>
        rw [ending] at ends
        cases ends with
        | newline => exact .newline _
        | both => exact .both _
        | carriage alone =>
          refine .carriage ?_
          cases first with
          | nil => exact notNewline
          | cons following first =>
            -- the next line begins as it did
            have ⟨after, same, _, nonempty, _⟩ := exists_of_lines_cons rest
            have some : following.text ≠ [] := length_pos_iff.1 nonempty.length_pos
            rw [same, List.head?_append_of_ne_nil _ some] at alone
            rwa [flat_cons, append_assoc, List.head?_append_of_ne_nil _ some]
    rw [flat_cons, append_assoc, Line.text, lines_append_of_ends plain replaced, ih rest]
    rfl

theorem ends_of_lines :
    IsPlain line.content ∧ Ends line.content line.ending (flat second)
      ∧ lines (flat second) = second := by
  induction first generalizing text with
  | nil =>
    obtain ⟨next, _, plain, ends, rfl⟩ := exists_of_lines_cons parts
    rw [flat_lines]
    exact ⟨plain, ends, rfl⟩
  | cons head first ih =>
    have ⟨next, _, _, _, rest⟩ := exists_of_lines_cons parts
    exact ih rest

theorem lines_replace_content {other : List Char} (plain : IsPlain other) (some : other ≠ []) :
    lines (other ++ line.ending ++ flat second) = ⟨other, line.ending⟩ :: second := by
  have ⟨_, ends, rest⟩ := ends_of_lines parts
  rw [lines_append_of_ends plain (ends.replace some), rest]

omit parts

theorem prefix_of_ends {marker more : List Char} (plain : IsPlain marker)
    (ends : Ends content ending next) (isMore : more <+: next)
    (begins : marker <+: content ++ ending ++ more) : marker <+: content := by
  rw [append_assoc] at begins
  rcases prefix_or_prefix_of_prefix begins (prefix_append _ _) with shorter | longer
  · exact shorter
  · obtain ⟨others, rfl⟩ := longer
    rw [prefix_append_right_inj] at begins
    cases others with
    | nil =>
      simp
    | cons character others =>
      exfalso
      have isPlain := plain character (mem_append_right _ mem_cons_self)
      cases ends with
      | newline => exact isPlain.1 (cons_prefix_cons.1 begins).1
      | both | carriage => exact isPlain.2 (cons_prefix_cons.1 begins).1
      | last => exact nomatch begins.trans isMore

/-! ### Machines -/

inductive Kind where
  | opens
  | continues
  | outside
deriving DecidableEq

structure Machine where
  State : Type
  step : State → List Char → State × Kind

namespace Machine

variable (machine : Machine)

def run (state : machine.State) (parts : List Line) : machine.State :=
  parts.foldl (fun state line => (machine.step state line.content).1) state

/-- The blocks of the lines from a position on; one may have been opened before. -/
def blocksFrom (state : machine.State) (position : Nat) (opened : Option (Nat × List Char)) :
    List Line → List (Nat × List Char)
  | [] => opened.toList
  | line :: rest =>
    let next := (machine.step state line.content).1
    let after := position + line.text.length
    match (machine.step state line.content).2 with
    | .opens => opened.toList ++ blocksFrom next after (some (position, line.text)) rest
    | .continues =>
      blocksFrom next after (opened.map fun block => (block.1, block.2 ++ line.text)) rest
    | .outside => opened.toList ++ blocksFrom next after none rest

def Separates (state : machine.State) : List Line → Prop
  | [] => True
  | line :: _ => (machine.step state line.content).2 ≠ .continues

end Machine

variable {machine : Machine}

theorem run_append (state : machine.State) (first second : List Line) :
    machine.run state (first ++ second) = machine.run (machine.run state first) second :=
  foldl_append

variable {state : machine.State}

theorem blocksFrom_of_separates {parts : List Line} (separates : machine.Separates state parts)
    (position : Nat) (opened : Option (Nat × List Char)) :
    machine.blocksFrom state position opened parts
      = opened.toList ++ machine.blocksFrom state position none parts := by
  cases parts with
  | nil => exact (append_nil _).symm
  | cons line rest =>
    unfold Machine.blocksFrom
    cases kind : (machine.step state line.content).2 with
    | opens | outside => rfl
    | continues => exact absurd kind separates

theorem blocksFrom_append (first : List Line) :
    ∀ (state : machine.State) (position : Nat) (opened : Option (Nat × List Char)),
      machine.Separates (machine.run state first) second →
      machine.blocksFrom state position opened (first ++ second)
        = machine.blocksFrom state position opened first
          ++ machine.blocksFrom (machine.run state first) (position + (flat first).length) none
            second := by
  induction first with
  | nil =>
    intro state position opened separates
    exact blocksFrom_of_separates separates position opened
  | cons line first ih =>
    intro state position opened separates
    have length : position + (flat (line :: first)).length
        = position + line.text.length + (flat first).length := by
      rw [flat_cons, length_append, Nat.add_assoc]
    rw [cons_append, Machine.blocksFrom, Machine.blocksFrom, length]
    cases (machine.step state line.content).2 with
    | opens | outside =>
      dsimp only
      rw [ih _ _ _ separates, append_assoc]
      rfl
    | continues =>
      dsimp only
      rw [ih _ _ _ separates]
      rfl

theorem blocksFrom_shift (parts : List Line) :
    ∀ (state : machine.State) (position offset : Nat) (opened : Option (Nat × List Char)),
      machine.blocksFrom state (offset + position)
          (opened.map fun block => (offset + block.1, block.2)) parts
        = (machine.blocksFrom state position opened parts).map
          fun block => (offset + block.1, block.2) := by
  induction parts with
  | nil =>
    intro state position offset opened
    cases opened <;> rfl
  | cons line rest ih =>
    intro state position offset opened
    rw [Machine.blocksFrom, Machine.blocksFrom, Nat.add_assoc]
    cases (machine.step state line.content).2 with
    | opens =>
      have later := ih (machine.step state line.content).1
        (position + line.text.length) offset (some (position, line.text))
      dsimp only [map_some] at later ⊢
      rw [later, map_append]
      cases opened <;> rfl
    | outside =>
      have later := ih (machine.step state line.content).1 (position + line.text.length) offset none
      dsimp only [map_none] at later ⊢
      rw [later, map_append]
      cases opened <;> rfl
    | continues =>
      have later := ih (machine.step state line.content).1 (position + line.text.length) offset
        (opened.map fun block => (block.1, block.2 ++ line.text))
      dsimp only
      rw [← later, Option.map_map, Option.map_map]
      rfl

variable {block : Nat × List Char}

theorem bounds_of_mem {low : Nat} (parts : List Line) :
    ∀ (state : machine.State) (position : Nat) (opened : Option (Nat × List Char)), low ≤ position →
      (∀ before, opened = some before → low ≤ before.1 ∧ before.1 + before.2.length = position) →
      block ∈ machine.blocksFrom state position opened parts →
      low ≤ block.1 ∧ block.1 + block.2.length ≤ position + (flat parts).length := by
  induction parts with
  | nil =>
    intro state position opened isLow ended member
    have bounds := ended block (mem_toList.1 member)
    exact ⟨bounds.1, Nat.le_of_eq bounds.2⟩
  | cons line rest ih =>
    intro state position opened isLow ended member
    have length : position + (flat (line :: rest)).length
        = position + line.text.length + (flat rest).length := by
      rw [flat_cons, length_append, Nat.add_assoc]
    have before : block ∈ opened.toList →
        low ≤ block.1 ∧ block.1 + block.2.length ≤ position + (flat (line :: rest)).length := by
      intro isOpened
      have bounds := ended block (mem_toList.1 isOpened)
      exact ⟨bounds.1, bounds.2 ▸ Nat.le_add_right _ _⟩
    rw [Machine.blocksFrom] at member
    cases kind : (machine.step state line.content).2 with
    | opens =>
      simp only [kind, mem_append] at member
      refine member.elim before fun later => ?_
      rw [length]
      apply ih _ _ _ (Nat.le_add_right_of_le isLow) _ later
      rintro _ ⟨⟩
      exact ⟨isLow, rfl⟩
    | outside =>
      simp only [kind, mem_append] at member
      refine member.elim before fun later => ?_
      rw [length]
      exact ih _ _ none (Nat.le_add_right_of_le isLow) nofun later
    | continues =>
      simp only [kind] at member
      rw [length]
      apply ih _ _ _ (Nat.le_add_right_of_le isLow) _ member
      intro block' isBlock
      obtain ⟨before, isOpened, rfl⟩ := map_eq_some_iff.1 isBlock
      have bounds := ended before isOpened
      refine ⟨bounds.1, ?_⟩
      dsimp only
      rw [length_append, ← Nat.add_assoc, bounds.2]

theorem blocksFrom_some (parts : List Line) :
    ∀ (state : machine.State) (position : Nat) (block : Nat × List Char),
      ∃ more later, more <+: flat parts ∧ machine.blocksFrom state position (some block) parts
        = (block.1, block.2 ++ more) :: later := by
  induction parts with
  | nil => exact fun _ _ block => ⟨[], [], nil_prefix, by rw [append_nil]; rfl⟩
  | cons line rest ih =>
    intro state position block
    rw [Machine.blocksFrom]
    cases (machine.step state line.content).2 with
    | opens | outside => exact ⟨[], _, nil_prefix, by rw [append_nil]; rfl⟩
    | continues =>
      have ⟨more, later, isMore, same⟩ := ih (machine.step state line.content).1
          (position + line.text.length) (block.1, block.2 ++ line.text)
      refine ⟨line.text ++ more, later, ?_, ?_⟩
      · rw [flat_cons, prefix_append_right_inj]
        exact isMore
      · rw [← append_assoc]
        exact same

theorem blocksFrom_of_continues (first : List Line) :
    ∀ (position : Nat) (block : Nat × List Char),
      (∀ line ∈ first, machine.step state line.content = (state, .continues)) →
      machine.blocksFrom state position (some block) (first ++ second)
        = machine.blocksFrom state (position + (flat first).length)
            (some (block.1, block.2 ++ flat first)) second := by
  induction first with
  | nil =>
    intro position block _
    rw [flat_nil, append_nil]
    rfl
  | cons line first ih =>
    intro position block stays
    rw [forall_mem_cons] at stays
    rw [cons_append, Machine.blocksFrom, stays.1, flat_cons, length_append,
      ← Nat.add_assoc, ← append_assoc]
    exact ih _ _ stays.2

theorem run_of_continues (first : List Line)
    (stays : ∀ line ∈ first, machine.step state line.content = (state, .continues)) :
    machine.run state first = state := by
  induction first with
  | nil => rfl
  | cons line first ih =>
    rw [forall_mem_cons] at stays
    show machine.run (machine.step state line.content).1 first = state
    rw [stays.1]
    exact ih stays.2

theorem exists_earlier {opened : Option (Nat × List Char)}
    {earlier later found : List (Nat × List Char)} (started : opened = none ∨ earlier ≠ [])
    (same : opened.toList ++ found = earlier ++ block :: later) :
    ∃ others, earlier = opened.toList ++ others ∧ found = others ++ block :: later := by
  cases opened with
  | none => exact ⟨earlier, rfl, same⟩
  | some first =>
    have some : earlier ≠ [] := started.resolve_left nofun
    obtain ⟨head, others, rfl⟩ := exists_cons_of_ne_nil some
    obtain ⟨rfl, rest⟩ := List.cons.inj same
    exact ⟨others, rfl, rest⟩

theorem exists_line_of_block {later : List (Nat × List Char)} (parts : List Line) :
    ∀ (state : machine.State) (position : Nat) (opened : Option (Nat × List Char))
      (earlier : List (Nat × List Char)), (opened = none ∨ earlier ≠ []) →
      machine.blocksFrom state position opened parts = earlier ++ block :: later →
      ∃ first line second, parts = first ++ line :: second
        ∧ (machine.step (machine.run state first) line.content).2 = .opens
        ∧ machine.blocksFrom state position opened first = earlier
        ∧ machine.blocksFrom (machine.run state first) (position + (flat first).length) none
            (line :: second) = block :: later := by
  induction parts with
  | nil =>
    intro state position opened earlier started found
    rw [Machine.blocksFrom, ← append_nil opened.toList] at found
    obtain ⟨others, _, none⟩ := exists_earlier started found
    exact absurd none.symm (append_ne_nil_of_right_ne_nil _ (cons_ne_nil _ _))
  | cons line rest ih =>
    intro state position opened earlier started found
    -- a block after the first line is found in the rest
    have inRest : ∀ before others, machine.blocksFrom (machine.step state line.content).1
          (position + line.text.length) before rest = others ++ block :: later →
        (before = none ∨ others ≠ []) →
        (∀ first, machine.blocksFrom state position opened (line :: first)
          = earlier ↔ machine.blocksFrom (machine.step state line.content).1
            (position + line.text.length) before first = others) →
        ∃ first line' second, line :: rest = first ++ line' :: second
          ∧ (machine.step (machine.run state first) line'.content).2 = .opens
          ∧ machine.blocksFrom state position opened first = earlier
          ∧ machine.blocksFrom (machine.run state first) (position + (flat first).length) none
              (line' :: second) = block :: later := by
      intro before others found startedToo sameEarlier
      obtain ⟨first, line', second, rfl, opens, isEarlier, isBlock⟩ := ih _ _ _ _ startedToo found
      refine ⟨line :: first, line', second, rfl, opens, (sameEarlier first).2 isEarlier, ?_⟩
      rw [flat_cons, length_append, ← Nat.add_assoc]
      exact isBlock
    cases kind : (machine.step state line.content).2 with
    | opens =>
      simp only [Machine.blocksFrom, kind] at found inRest
      obtain ⟨others, rfl, isFound⟩ := exists_earlier started found
      by_cases here : others = []
      · subst here
        refine ⟨[], line, rest, rfl, kind, (append_nil _).symm, ?_⟩
        show machine.blocksFrom state (position + 0) none (line :: rest) = block :: later
        simp only [Nat.add_zero, Machine.blocksFrom, kind]
        exact isFound
      · exact inRest _ others isFound (Or.inr here) fun first => append_right_inj _
    | outside =>
      simp only [Machine.blocksFrom, kind] at found inRest
      obtain ⟨others, rfl, isFound⟩ := exists_earlier started found
      exact inRest _ others isFound (Or.inl rfl) fun first => append_right_inj _
    | continues =>
      simp only [Machine.blocksFrom, kind] at found inRest
      refine inRest _ earlier found ?_ fun first => Iff.rfl
      exact started.imp_left fun none => by rw [none]; rfl

theorem exists_text_of_mem (parts : List Line) :
    ∀ (state : machine.State) (before : List Char) (opened : Option (Nat × List Char)),
      (∀ first, opened = some first →
        ∃ earlier, before = earlier ++ first.2 ∧ earlier.length = first.1) →
      block ∈ machine.blocksFrom state before.length opened parts →
      ∃ earlier later, before ++ flat parts = earlier ++ (block.2 ++ later)
        ∧ earlier.length = block.1 := by
  induction parts with
  | nil =>
    intro state before opened stands member
    obtain ⟨earlier, rfl, position⟩ := stands block (mem_toList.1 member)
    exact ⟨earlier, [], by rw [flat_nil, append_nil, append_nil], position⟩
  | cons line rest ih =>
    intro state before opened stands member
    have isOpened : block ∈ opened.toList → ∃ earlier later,
        before ++ flat (line :: rest) = earlier ++ (block.2 ++ later)
          ∧ earlier.length = block.1 := by
      intro isFirst
      obtain ⟨earlier, rfl, position⟩ := stands block (mem_toList.1 isFirst)
      exact ⟨earlier, flat (line :: rest), append_assoc _ _ _, position⟩
    have inRest := ih (machine.step state line.content).1 (before ++ line.text)
    rw [length_append] at inRest
    rw [Machine.blocksFrom] at member
    rw [flat_cons, ← append_assoc]
    cases kind : (machine.step state line.content).2 with
    | opens =>
      simp only [kind, mem_append] at member
      refine member.elim (fun first => ?_) fun later => ?_
      · rw [append_assoc]
        exact isOpened first
      · refine inRest _ ?_ later
        rintro _ ⟨⟩
        exact ⟨before, rfl, rfl⟩
    | outside =>
      simp only [kind, mem_append] at member
      refine member.elim (fun first => ?_) fun later => inRest none nofun later
      rw [append_assoc]
      exact isOpened first
    | continues =>
      simp only [kind] at member
      refine inRest _ ?_ member
      intro block' isBlock
      obtain ⟨first, isFirst, rfl⟩ := map_eq_some_iff.1 isBlock
      obtain ⟨earlier, rfl, position⟩ := stands first isFirst
      exact ⟨earlier, append_assoc _ _ _, position⟩

end Clepsydra.Library.LineScan
