import Clepsydra.Bases.GeneratedRegion

/-!
Owns: the block structure that is used of CommonMark, and the directives of lines.

Proves: what the lines of a header and of an end marker are read as.
-/

namespace Clepsydra.Bases.Generated

open Library Library.LineScan List Option
open Vault (Uuid isWhitespace hexChar hexDigit)

/-! ### Blanks -/

def trimEnd (text : List Char) : List Char := (text.reverse.dropWhile isWhitespace).reverse

theorem trimEnd_initial (text : List Char) : trimEnd text <+: text := by
  rw [trimEnd, ← reverse_suffix, reverse_reverse]
  exact dropWhile_suffix _

theorem exists_of_trimEnd (text : List Char) : ∃ blanks, text = trimEnd text ++ blanks
      ∧ ∀ character ∈ blanks, isWhitespace character = true := by
  refine ⟨(text.reverse.takeWhile isWhitespace).reverse, ?_, ?_⟩
  · rw [trimEnd, ← reverse_append, takeWhile_append_dropWhile, reverse_reverse]
  · intro character member
    exact List.all_eq_true.1 all_takeWhile character (mem_reverse.1 member)

theorem trimEnd_append_blanks {blanks : List Char}
    (blank : ∀ character ∈ blanks, isWhitespace character = true) (text : List Char) :
    trimEnd (text ++ blanks) = trimEnd text := by
  rw [trimEnd, trimEnd, reverse_append, dropWhile_append_of_pos]
  intro character member
  exact blank character (mem_reverse.1 member)

theorem trimEnd_concat {last : Char} (notBlank : isWhitespace last = false) (text : List Char) :
    trimEnd (text ++ [last]) = text ++ [last] := by
  rw [trimEnd, reverse_append, reverse_singleton, singleton_append,
    dropWhile_cons_of_neg (by rw [notBlank]; exact Bool.false_ne_true), reverse_cons,
    reverse_reverse]

theorem Block.at_append {spaces text : List Char} {character : Char}
    (blank : ∀ space ∈ spaces, isWhitespace space = true)
    (notBlank : isWhitespace character = false) (start : Nat) :
    Block.at start (spaces ++ character :: text)
      = ⟨start + spaces.length, trimEnd (character :: text)⟩ := by
  have isText : ¬isWhitespace character = true := by
    rw [notBlank]
    exact Bool.false_ne_true
  rw [Block.at, trim, takeWhile_append_of_pos blank, dropWhile_append_of_pos blank,
    takeWhile_cons_of_neg isText, dropWhile_cons_of_neg isText, append_nil]
  rfl

theorem Block.at_comment {spaces text blanks : List Char}
    (blankBefore : ∀ space ∈ spaces, isWhitespace space = true) (begins : ['<'] <+: text)
    (ends : ['>'] <:+ text) (blankAfter : ∀ blank ∈ blanks, isWhitespace blank = true)
    (start : Nat) :
    Block.at start (spaces ++ text ++ blanks) = ⟨start + spaces.length, text⟩ := by
  have ⟨rest, isText⟩ := begins
  have ⟨body, isEnd⟩ := ends
  have cut := @Block.at_append spaces (rest ++ blanks) '<' blankBefore (by decide) start
  rw [append_assoc, ← isText]
  refine cut.trans (congrArg _ ?_)
  show trimEnd (['<'] ++ rest ++ blanks) = ['<'] ++ rest
  rw [trimEnd_append_blanks blankAfter, isText, ← isEnd]
  exact trimEnd_concat (by decide) body

theorem Block.at_bounds (start : Nat) (text : List Char) : start ≤ (Block.at start text).start
      ∧ (Block.at start text).start + (Block.at start text).text.length ≤ start + text.length := by
  refine ⟨Nat.le_add_right _ _, ?_⟩
  have cut := congrArg List.length (@takeWhile_append_dropWhile _ isWhitespace text)
  have shorter := (trimEnd_initial (text.dropWhile isWhitespace)).length_le
  rw [length_append] at cut
  show start + (text.takeWhile isWhitespace).length
    + (trimEnd (text.dropWhile isWhitespace)).length ≤ start + text.length
  omega

theorem Block.at_shift (amount start : Nat) (text : List Char) :
    Block.at (amount + start) text = (Block.at start text).shift amount := by
  simp only [Block.at, Block.shift, Nat.add_assoc]

/-! ### CommonMark -/

def commentStart : List Char := ['<', '!', '-', '-']

def IsIndentation (spaces : List Char) : Prop := ∀ character ∈ spaces, character = ' '

theorem blank_of_isIndentation {spaces : List Char} (indented : IsIndentation spaces) :
    ∀ character ∈ spaces, isWhitespace character = true := by
  intro character member
  rw [indented character member]
  decide

/-- HTML blocks at the top level are read line by line, and a comment ends with the line of its
end. -/
structure CommonMark (crates : Crates) where
  machine : Machine
  top : machine.State
  comment : machine.State
  reads : ∀ markdown : List Char, blocks crates markdown
    = (machine.blocksFrom top 0 none (lines markdown)).map fun block => .at block.1 block.2
  opens_html : ∀ {state : machine.State} {content : List Char},
    (machine.step state content).2 = .opens →
      ∃ spaces rest, IsIndentation spaces ∧ content = spaces ++ '<' :: rest
  opens_comment : ∀ {state : machine.State} {spaces text : List Char}, IsIndentation spaces →
    commentStart <+: text → (machine.step state (spaces ++ text)).2 = .opens →
      (terminator <:+: text → (machine.step state (spaces ++ text)).1 = top)
      ∧ (¬terminator <:+: text → (machine.step state (spaces ++ text)).1 = comment)
  in_comment : ∀ content : List Char,
    (terminator <:+: content → machine.step comment content = (top, .continues))
      ∧ (¬terminator <:+: content → machine.step comment content = (comment, .continues))
  blank : machine.step top [] = (top, .outside)
  top_ends : ∀ content : List Char, (machine.step top content).2 ≠ .continues
  by_marker : ∀ {state : machine.State} {text other : List Char}, commentStart <+: text →
    commentStart <+: other → (machine.step state text).2 = .opens →
      (machine.step state other).2 = .opens

variable {crates : Crates} (commonMark : CommonMark crates)

namespace CommonMark

def directivesFrom (state : commonMark.machine.State) (position : Nat) (parts : List Line) :
    List Block :=
  ((commonMark.machine.blocksFrom state position none parts).map
    fun block => Block.at block.1 block.2).filter isDirective

variable {commonMark}

theorem directives_eq (markdown : List Char) :
    directives crates markdown = commonMark.directivesFrom commonMark.top 0 (lines markdown) := by
  rw [directives, commonMark.reads]
  rfl

theorem separates_top (parts : List Line) : commonMark.machine.Separates commonMark.top parts := by
  cases parts with
  | nil => trivial
  | cons line rest => exact commonMark.top_ends line.content

theorem directivesFrom_append {state : commonMark.machine.State} {first second : List Line}
    (separates : commonMark.machine.Separates (commonMark.machine.run state first) second)
    (position : Nat) :
    commonMark.directivesFrom state position (first ++ second)
      = commonMark.directivesFrom state position first
        ++ commonMark.directivesFrom (commonMark.machine.run state first)
          (position + (flat first).length) second := by
  rw [directivesFrom, blocksFrom_append first state position none separates, map_append,
    filter_append]
  rfl

theorem isDirective_shift (amount : Nat) (block : Block) :
    isDirective (block.shift amount) = isDirective block := rfl

theorem directivesFrom_shift (state : commonMark.machine.State) (amount position : Nat)
    (parts : List Line) :
    commonMark.directivesFrom state (amount + position) parts
      = (commonMark.directivesFrom state position parts).map (·.shift amount) := by
  have shifted := @blocksFrom_shift commonMark.machine parts state position amount none
  rw [map_none] at shifted
  rw [directivesFrom, shifted, directivesFrom, List.map_map, List.filter_map, List.filter_map,
    List.map_map]
  refine congr (congrArg List.map (funext fun block => ?_)) (congrArg (List.filter · _) ?_)
  · exact Block.at_shift amount block.1 block.2
  · funext block
    show isDirective (Block.at (amount + block.1) block.2) = isDirective (Block.at block.1 block.2)
    rw [Block.at_shift, isDirective_shift]

variable {block : Block}

theorem ne_nil_of_isDirective (directive : isDirective block = true) :
    block.text ≠ [] := by
  intro empty
  rw [isDirective, empty] at directive
  exact absurd directive (by decide)

theorem bounds_of_mem_directivesFrom {state : commonMark.machine.State} {position : Nat}
    {parts : List Line} (member : block ∈ commonMark.directivesFrom state position parts) :
    position ≤ block.start ∧ block.start + block.text.length ≤ position + (flat parts).length
      ∧ 0 < block.text.length := by
  have ⟨inBlocks, directive⟩ := mem_filter.1 member
  obtain ⟨⟨start, text⟩, found, rfl⟩ := List.mem_map.1 inBlocks
  have bounds := bounds_of_mem parts state position none (Nat.le_refl position) nofun found
  have within := Block.at_bounds start text
  have some := length_pos_iff.2 (ne_nil_of_isDirective directive)
  dsimp only at bounds some ⊢
  omega

theorem exists_line_of_directive {parts : List Line} {earlier later : List Block}
    (found : commonMark.directivesFrom commonMark.top 0 parts = earlier ++ block :: later) :
    ∃ first line second spaces rest, parts = first ++ line :: second ∧ IsIndentation spaces
      ∧ line.content = spaces ++ '<' :: rest
      ∧ (commonMark.machine.step (commonMark.machine.run commonMark.top first) line.content).2 = .opens
      ∧ commonMark.directivesFrom commonMark.top 0 first = earlier
      ∧ commonMark.directivesFrom (commonMark.machine.run commonMark.top first) (flat first).length
        (line :: second) = block :: later
      ∧ block.start = (flat first).length + spaces.length
      ∧ ∃ more, more <+: flat second
        ∧ block.text = trimEnd ('<' :: rest ++ line.ending ++ more) := by
  obtain ⟨firstBlocks, others, all, isFirst, isOthers⟩ := filter_eq_append_iff.1 found
  obtain ⟨passed, lastBlocks, rfl, notDirective, directive, isLast⟩ := filter_eq_cons_iff.1 isOthers
  rw [← append_assoc] at all
  obtain ⟨before, after, blocksAre, isBefore, isAfter⟩ := map_eq_append_iff.1 all
  obtain ⟨⟨start, text⟩, after, rfl, isBlock, isAfter⟩ := map_eq_cons_iff.1 isAfter
  obtain ⟨first, line, second, rfl, opens, areBefore, areAfter⟩ :=
    exists_line_of_block parts commonMark.top 0 none before (Or.inl rfl) blocksAre
  obtain ⟨spaces, rest, indented, content⟩ := commonMark.opens_html opens
  rw [Nat.zero_add] at areAfter
  have begins : start = (flat first).length
      ∧ ∃ more, more <+: flat second ∧ text = line.text ++ more := by
    have opened := areAfter
    rw [Machine.blocksFrom] at opened
    simp only [opens, toList_none, nil_append] at opened
    obtain ⟨more, later, isMore, same⟩ := blocksFrom_some second
      (commonMark.machine.step (commonMark.machine.run commonMark.top first) line.content).1
      ((flat first).length + line.text.length) ((flat first).length, line.text)
    rw [same] at opened
    obtain ⟨isStart, _⟩ := Prod.mk.inj (List.cons.inj opened).1
    exact ⟨isStart.symm, more, isMore, (Prod.mk.inj (List.cons.inj opened).1).2.symm⟩
  obtain ⟨rfl, more, isMore, rfl⟩ := begins
  have isAt : block = ⟨(flat first).length + spaces.length,
      trimEnd ('<' :: rest ++ line.ending ++ more)⟩ := by
    rw [← isBlock, Line.text, content, append_assoc, append_assoc, append_assoc]
    exact Block.at_append (blank_of_isIndentation indented) (by decide) _
  refine ⟨first, line, second, spaces, rest, rfl, indented, content, opens, ?_, ?_, ?_, more,
    isMore, ?_⟩
  · rw [directivesFrom, areBefore, isBefore, filter_append, isFirst,
      filter_eq_nil_iff.2 notDirective, append_nil]
  · rw [directivesFrom, areAfter, isAfter, filter_cons_of_pos directive, isLast]
  · rw [isAt]
  · rw [isAt]

theorem opens_of_start {first second : List Line} {line : Line}
    (found : block ∈ commonMark.directivesFrom commonMark.top 0 (first ++ line :: second))
    (some : 0 < line.text.length) (start : block.start = (flat first).length) :
    (commonMark.machine.step (commonMark.machine.run commonMark.top first) line.content).2
      = .opens := by
  have ⟨earlier, later, split⟩ := append_of_mem found
  have ⟨first', line', second', spaces, rest, same, _, content, opens, _, _, position, _⟩ :=
    exists_line_of_directive split
  have inside : spaces.length < line'.text.length := by
    rw [Line.text, content, length_append, length_append, length_cons]
    omega
  obtain ⟨rfl, rfl, _⟩ := eq_of_position same.symm inside some (position.symm.trans start)
  exact opens

end CommonMark

open CommonMark

variable {commonMark}

/-! ### Markers in lines -/

theorem begins_openMarker : commentStart <+: openMarker := by decide

theorem begins_closeMarker : commentStart <+: closeMarker := by decide

theorem ended_closeMarker : terminator <:+: closeMarker := by decide

theorem isPlain_openMarker : IsPlain openMarker := isPlain_of_all (by decide)

theorem isPlain_closeMarker : IsPlain closeMarker := isPlain_of_all (by decide)

theorem isDirective_closing (position : Nat) : isDirective ⟨position, closeMarker⟩ = true := by
  show (standaloneComment closeMarker
    && (openMarker.isPrefixOf closeMarker || closeStart.isPrefixOf closeMarker)) = true
  decide

variable {state : commonMark.machine.State} {spaces : List Char}

theorem directivesFrom_indented {blanks ending : List Char} (indented : IsIndentation spaces)
    (opens : (commonMark.machine.step state (spaces ++ (closeMarker ++ blanks))).2 = .opens)
    (blank : ∀ character ∈ blanks ++ ending, isWhitespace character = true) (position : Nat)
    (second : List Line) :
    commonMark.directivesFrom state position (⟨spaces ++ (closeMarker ++ blanks), ending⟩ :: second)
      = ⟨position + spaces.length, closeMarker⟩ :: commonMark.directivesFrom commonMark.top
        (position + (spaces ++ (closeMarker ++ blanks) ++ ending).length) second := by
  have next : (commonMark.machine.step state (spaces ++ (closeMarker ++ blanks))).1
      = commonMark.top := by
    have begins := begins_closeMarker.trans (prefix_append closeMarker blanks)
    have ended : terminator <:+: closeMarker ++ blanks :=
      infix_append_of_infix_left ended_closeMarker
    exact (commonMark.opens_comment indented begins opens).1 ended
  have trimmed : Block.at position (spaces ++ (closeMarker ++ blanks) ++ ending)
      = ⟨position + spaces.length, closeMarker⟩ := by
    rw [← append_assoc, append_assoc (spaces ++ closeMarker)]
    exact Block.at_comment (blank_of_isIndentation indented) (by decide) (by decide) blank position
  rw [directivesFrom, Machine.blocksFrom]
  simp only [opens, next, toList_none, nil_append]
  rw [blocksFrom_of_separates (separates_top second), toList_some, singleton_append, map_cons]
  show List.filter isDirective
    (Block.at position (spaces ++ (closeMarker ++ blanks) ++ ending) :: _) = _
  rw [trimmed, filter_cons_of_pos (isDirective_closing _)]
  rfl

theorem directivesFrom_closing {blanks ending : List Char}
    (opens : (commonMark.machine.step state (closeMarker ++ blanks)).2 = .opens)
    (blank : ∀ character ∈ blanks ++ ending, isWhitespace character = true) (position : Nat)
    (second : List Line) :
    commonMark.directivesFrom state position (⟨closeMarker ++ blanks, ending⟩ :: second)
      = ⟨position, closeMarker⟩ :: commonMark.directivesFrom commonMark.top
        (position + (closeMarker ++ blanks ++ ending).length) second :=
  @directivesFrom_indented crates commonMark state [] blanks ending nofun opens blank position second

/-! ### Headers -/

def headerLines (spaces header : List Char) : List Line :=
  ⟨spaces ++ openMarker, ['\n']⟩ :: lines header ++ [⟨terminator, ['\n']⟩]

def headerText (header : List Char) : List Char := openMarker ++ '\n' :: header ++ terminator

theorem flat_headerLines (spaces header : List Char) :
    flat (headerLines spaces header) = spaces ++ headerText header ++ ['\n'] := by
  rw [headerLines, cons_append, flat_cons, flat_append, flat_lines]
  simp [Line.text, headerText]

theorem isPlain_append {first second : List Char} (isFirst : IsPlain first)
    (isSecond : IsPlain second) : IsPlain (first ++ second) :=
  fun character member => (mem_append.1 member).elim (isFirst character) (isSecond character)

theorem isPlain_of_isIndentation (indented : IsIndentation spaces) :
    IsPlain spaces := by
  intro character member
  rw [indented character member]
  decide

variable {body : List Char}

theorem lines_append_ended (next : List Char) :
    lines (body ++ ['\n'] ++ next) = lines (body ++ ['\n']) ++ lines next := by
  rw [append_assoc]
  exact lines_append body next

theorem lines_plain_append {content : List Char} (plain : IsPlain content) (next : List Char) :
    lines (content ++ '\n' :: next) = ⟨content, ['\n']⟩ :: lines next := by
  have read := lines_append_of_ends plain (.newline next)
  rw [append_assoc] at read
  exact read

theorem lines_header (indented : IsIndentation spaces) (rest : List Char) :
    lines (spaces ++ headerText (body ++ ['\n']) ++ '\n' :: rest)
      = headerLines spaces (body ++ ['\n']) ++ lines rest := by
  have first : spaces ++ headerText (body ++ ['\n']) ++ '\n' :: rest
      = (spaces ++ openMarker) ++ '\n' :: (body ++ ['\n'] ++ (terminator ++ '\n' :: rest)) := by
    simp [headerText]
  have isTerminator : IsPlain terminator := isPlain_of_all (by decide)
  rw [first, lines_plain_append (isPlain_append (isPlain_of_isIndentation indented)
    isPlain_openMarker), lines_append_ended, lines_plain_append isTerminator, headerLines]
  simp

theorem splitOnce_headerText (absent : ¬terminator <:+: body ++ ['\n']) :
    splitOnce terminator (headerText (body ++ ['\n']))
      = some (openMarker ++ '\n' :: (body ++ ['\n']), []) := by
  have fresh : '\n' ∉ terminator := by decide
  have notBefore : ¬terminator <:+: openMarker ++ '\n' :: body := by
    rw [infix_append_cons_iff fresh, not_or]
    refine ⟨by decide, fun occurs => absent ?_⟩
    exact infix_append_of_infix_left occurs
  have text : headerText (body ++ ['\n']) = (openMarker ++ '\n' :: body) ++ '\n' :: terminator := by
    simp [headerText]
  have here : splitOnce terminator terminator = some ([], []) := by decide
  rw [text, splitOnce_append_cons fresh notBefore, here]
  simp

theorem isDirective_header (absent : ¬terminator <:+: body ++ ['\n']) (position : Nat) :
    isDirective ⟨position, headerText (body ++ ['\n'])⟩ = true := by
  have begins : openMarker.isPrefixOf (headerText (body ++ ['\n'])) = true := by
    rw [List.isPrefixOf_iff_prefix, headerText, append_assoc]
    exact prefix_append _ _
  rw [isDirective, standaloneComment, splitOnce_headerText absent, begins]
  rfl

theorem stays_lines {header : List Char} (absent : ¬terminator <:+: header) : ∀ line ∈ lines header,
      commonMark.machine.step commonMark.comment line.content = (commonMark.comment, .continues) := by
  intro line member
  apply (commonMark.in_comment line.content).2
  exact fun occurs => absent (occurs.trans (content_within member))

theorem directivesFrom_header (indented : IsIndentation spaces)
    (opens : (commonMark.machine.step state (spaces ++ openMarker)).2 = .opens)
    (absent : ¬terminator <:+: body ++ ['\n']) (position : Nat) (second : List Line) :
    commonMark.machine.run state (headerLines spaces (body ++ ['\n'])) = commonMark.top
      ∧ commonMark.directivesFrom state position (headerLines spaces (body ++ ['\n']) ++ second)
        = ⟨position + spaces.length, headerText (body ++ ['\n'])⟩
          :: commonMark.directivesFrom commonMark.top
            (position + (flat (headerLines spaces (body ++ ['\n']))).length) second := by
  have next : (commonMark.machine.step state (spaces ++ openMarker)).1 = commonMark.comment :=
    (commonMark.opens_comment indented begins_openMarker opens).2 (by decide)
  have stays := @stays_lines crates commonMark (body ++ ['\n']) absent
  have ends : commonMark.machine.step commonMark.comment terminator = (commonMark.top, .continues) :=
    (commonMark.in_comment terminator).1 infix_rfl
  constructor
  · rw [headerLines, run_append]
    show (commonMark.machine.step (commonMark.machine.run
      (commonMark.machine.step state (spaces ++ openMarker)).1 _) terminator).1 = commonMark.top
    rw [next, run_of_continues _ stays, ends]
  · have length : position + (flat (headerLines spaces (body ++ ['\n']))).length
        = position + (spaces ++ openMarker ++ ['\n']).length + (flat (lines (body ++ ['\n']))).length
          + (terminator ++ ['\n']).length := by
      simp only [headerLines, flat_cons, flat_append, flat_nil, cons_append, Line.text,
        length_append, length_nil]
      omega
    rw [length, directivesFrom, headerLines, cons_append, cons_append, Machine.blocksFrom,
      append_assoc]
    simp only [opens, next, toList_none, nil_append]
    rw [blocksFrom_of_continues _ _ _ stays, singleton_append, Machine.blocksFrom]
    simp only [ends, map_some]
    rw [blocksFrom_of_separates (separates_top second), toList_some, singleton_append, map_cons]
    have isBlock : Block.at position ((spaces ++ openMarker ++ ['\n']) ++ flat (lines (body ++ ['\n']))
        ++ (terminator ++ ['\n'])) = ⟨position + spaces.length, headerText (body ++ ['\n'])⟩ := by
      rw [flat_lines]
      have text : spaces ++ openMarker ++ ['\n'] ++ (body ++ ['\n']) ++ (terminator ++ ['\n'])
          = spaces ++ headerText (body ++ ['\n']) ++ ['\n'] := by
        simp [headerText]
      rw [text]
      apply Block.at_comment
      · exact blank_of_isIndentation indented
      · rw [headerText, append_assoc]
        exact prefix_append_of_prefix (by decide)
      · rw [headerText]
        exact suffix_append_of_suffix (by decide)
      · exact List.all_eq_true.1 (by decide)
    rw [show Line.text ⟨spaces ++ openMarker, ['\n']⟩ = spaces ++ openMarker ++ ['\n'] from rfl,
      show Line.text ⟨terminator, ['\n']⟩ = terminator ++ ['\n'] from rfl, isBlock,
      filter_cons_of_pos (isDirective_header absent _)]
    rfl

/-! ### Payloads -/

def EndsLine (text : List Char) : Prop := text = [] ∨ ∃ body, text = body ++ ['\n']

theorem lines_append_of_endsLine {text : List Char} (ends : EndsLine text) (next : List Char) :
    lines (text ++ next) = lines text ++ lines next := by
  rcases ends with rfl | ⟨body, rfl⟩
  · rfl
  · exact lines_append_ended next

theorem lines_closeMarker : lines closeMarker = [⟨closeMarker, []⟩] := by
  have read := lines_append_of_ends isPlain_closeMarker (.last (by decide))
  rw [append_nil, append_nil] at read
  exact read

def Stands (crates : Crates) (text : List Char) : Prop :=
  (⟨text.length, closeMarker⟩ : Block) ∈ directives crates (text ++ closeMarker)

theorem stands_iff {text : List Char} (ends : EndsLine text) :
    Stands crates text ↔ (commonMark.machine.step
      (commonMark.machine.run commonMark.top (lines text)) closeMarker).2 = .opens := by
  have parts : lines (text ++ closeMarker) = lines text ++ [⟨closeMarker, []⟩] := by
    rw [lines_append_of_endsLine ends, lines_closeMarker]
  rw [Stands, @directives_eq crates commonMark, parts]
  constructor
  · intro member
    refine opens_of_start member (by decide) ?_
    rw [flat_lines]
  · intro opens
    have separates : commonMark.machine.Separates
        (commonMark.machine.run commonMark.top (lines text)) [⟨closeMarker, []⟩] := by
      intro continues
      rw [opens] at continues
      exact nomatch continues
    have plain : (commonMark.machine.step (commonMark.machine.run commonMark.top (lines text))
        (closeMarker ++ [])).2 = .opens := by
      rw [append_nil]
      exact opens
    have found := @directivesFrom_closing crates commonMark _ [] [] plain nofun
      (flat (lines text)).length []
    rw [append_nil] at found
    rw [directivesFrom_append separates, Nat.zero_add, found, flat_lines]
    exact mem_append_right _ mem_cons_self

theorem directivesFrom_blank (position : Nat) (ending : List Char) (parts : List Line) :
    commonMark.directivesFrom commonMark.top position (⟨[], ending⟩ :: parts)
      = commonMark.directivesFrom commonMark.top (position + ending.length) parts := by
  rw [directivesFrom, Machine.blocksFrom, commonMark.blank]
  rfl

theorem run_blank (ending : List Char) (parts : List Line) :
    commonMark.machine.run commonMark.top (⟨[], ending⟩ :: parts)
      = commonMark.machine.run commonMark.top parts := by
  show commonMark.machine.run (commonMark.machine.step commonMark.top []).1 parts = _
  rw [commonMark.blank]

theorem directivesFrom_eq_nil_iff (state : commonMark.machine.State) (position : Nat)
    (parts : List Line) :
    commonMark.directivesFrom state position parts = []
      ↔ commonMark.directivesFrom state 0 parts = [] := by
  rw [← Nat.add_zero position, directivesFrom_shift, map_eq_nil_iff]

theorem directives_feed (inner : List Char) :
    directives crates ('\n' :: inner) = commonMark.directivesFrom commonMark.top 1 (lines inner) := by
  rw [@directives_eq crates commonMark]
  exact directivesFrom_blank 0 ['\n'] (lines inner)

end Clepsydra.Bases.Generated
