import Clepsydra.Vault.Repair
import Clepsydra.Vault.Rewriter

/-!
Owns: the edits that retarget the wikilinks of a document when a page is renamed in an editor.

Proves: the client replaces the links and nothing else, just where no character before or in such a
link ends a line for the rope alone.
-/

namespace Clepsydra.Lsp

open Library Vault Vault.Rewriter List
open Library.Splice (Edit)

/-! ### Positions -/

structure Position where
  line : Nat
  character : Nat
deriving DecidableEq

def endsLine (others : Char → Bool) (character : Char) (rest : List Char) : Bool :=
  character == '\n' || (character == '\r' && rest.head? != some '\n') || others character

def isRopeBreak (character : Char) : Bool :=
  ['\x0b', '\x0c', '\u0085', '\u2028', '\u2029'].contains character

/-- `byte_to_line`, and the bytes since `line_to_byte`. -/
def ropePosition : List Char → Nat → Position
  | character :: rest, offset + 1 =>
    let later := ropePosition rest offset
    if endsLine isRopeBreak character rest then { later with line := later.line + 1 }
    else if later.line = 0 then { later with character := later.character + character.utf8Size }
    else later
  | _, _ => ⟨0, 0⟩

def clientOffset : List Char → Nat → Nat → Nat
  | [], _, _ => 0
  | character :: rest, line + 1, column =>
    if endsLine (fun _ => false) character rest then clientOffset rest line column + 1
    else clientOffset rest (line + 1) column + 1
  | character :: rest, 0, column =>
    if column = 0 ∨ character = '\n' ∨ character = '\r' then 0
    else clientOffset rest 0 (column - character.utf8Size) + 1

theorem endsLine_iff {character : Char} {rest : List Char} :
    endsLine (fun _ => false) character rest = true
      ↔ character = '\n' ∨ character = '\r' ∧ rest.head? ≠ some '\n' := by
  rw [endsLine, Bool.or_false, Bool.or_eq_true, Bool.and_eq_true, beq_iff_eq, beq_iff_eq,
    bne_iff_ne]

theorem endsLine_of_break {character : Char} (isBreak : isRopeBreak character = true)
    (rest : List Char) : endsLine isRopeBreak character rest = true := by
  rw [endsLine, isBreak, Bool.or_true]

theorem endsLine_of_plainly {character : Char} {rest : List Char}
    (plainly : endsLine (fun _ => false) character rest = true) :
    endsLine isRopeBreak character rest = true := by
  rw [endsLine, Bool.or_false] at plainly
  rw [endsLine, plainly, Bool.true_or]

theorem line_ropePosition_newline (rest : List Char) (offset : Nat) :
    0 < (ropePosition ('\n' :: rest) (offset + 1)).line := by
  simp [ropePosition, endsLine]

/-- **The client reads the offset back** where no line before it ends for the rope alone. -/
theorem clientOffset_ropePosition (before : List Char) : ∀ {rest : List Char},
    (∀ character ∈ before, isRopeBreak character = false) →
    ¬(before.getLast? = some '\r' ∧ rest.head? = some '\n') →
    clientOffset (before ++ rest) (ropePosition (before ++ rest) before.length).line
      (ropePosition (before ++ rest) before.length).character = before.length := by
  induction before with
  | nil =>
    intro rest _ _
    cases rest <;> simp [ropePosition, clientOffset]
  | cons character before ih =>
    intro rest plain whole
    rw [forall_mem_cons] at plain
    have wholeRest : ¬(before.getLast? = some '\r' ∧ rest.head? = some '\n') := by
      rintro ⟨isReturn, isNewline⟩
      apply whole
      rw [getLast?_cons, isReturn]
      exact ⟨rfl, isNewline⟩
    have later := ih plain.2 wholeRest
    rw [cons_append, length_cons, ropePosition]
    generalize isLater : ropePosition (before ++ rest) before.length = position at later ⊢
    have same : endsLine isRopeBreak character (before ++ rest)
        = endsLine (fun _ => false) character (before ++ rest) := by
      rw [endsLine, endsLine, plain.1]
    by_cases ends : endsLine isRopeBreak character (before ++ rest) = true
    · rw [if_pos ends, clientOffset, if_pos (same ▸ ends), later]
    · rw [if_neg ends]
      by_cases first : position.line = 0
      · have notBreak : character ≠ '\n' ∧ character ≠ '\r' := by
          constructor
          · rintro rfl
            exact ends (by simp [endsLine])
          · rintro rfl
            -- The line feed of a CRLF ends the line.
            have isNewline : (before ++ rest).head? = some '\n' := by
              by_contra other
              exact ends (by rw [endsLine, bne_iff_ne.2 other]; rfl)
            cases before with
            | nil => exact whole ⟨rfl, isNewline⟩
            | cons second before =>
              obtain rfl : second = '\n' := Option.some.inj isNewline
              have after := line_ropePosition_newline (before ++ rest) before.length
              rw [cons_append, length_cons] at isLater
              rw [isLater] at after
              omega
        have positive := character.utf8Size_pos
        have someColumn : ¬(position.character + character.utf8Size = 0 ∨ character = '\n'
            ∨ character = '\r') := by
          rw [not_or, not_or]
          exact ⟨by omega, notBreak⟩
        rw [if_pos first, first, clientOffset, if_neg someColumn, Nat.add_sub_cancel]
        rw [first] at later
        rw [later]
      · have ⟨line, isLine⟩ := Nat.exists_eq_add_one_of_ne_zero first
        rw [if_neg first, isLine, clientOffset, if_neg (same ▸ ends)]
        rw [isLine] at later
        rw [later]

theorem clientOffset_le (text : List Char) : ∀ line column,
    clientOffset text line column ≤ text.length := by
  induction text with
  | nil => exact fun _ _ => Nat.le_refl 0
  | cons character rest ih =>
    intro line column
    rw [length_cons]
    cases line with
    | zero =>
      have later := ih 0 (column - character.utf8Size)
      rw [clientOffset]
      split <;> omega
    | succ line =>
      have next := ih line column
      have same := ih (line + 1) column
      rw [clientOffset]
      split <;> omega

/-- A client that is sent to a later line is sent past the offset, or to the end. -/
theorem past_of_line_lt (text : List Char) : ∀ {offset line column : Nat},
    (ropePosition text offset).line < line →
    min (offset + 1) text.length ≤ clientOffset text line column := by
  induction text with
  | nil => exact fun _ => Nat.min_le_right _ _
  | cons character rest ih =>
    intro offset line column isLater
    obtain ⟨line, rfl⟩ := Nat.exists_eq_add_one_of_ne_zero (Nat.ne_zero_of_lt isLater)
    rw [length_cons, clientOffset]
    cases offset with
    | zero => split <;> omega
    | succ offset =>
      have least : (ropePosition rest offset).line
          ≤ (ropePosition (character :: rest) (offset + 1)).line := by
        rw [ropePosition]
        split_ifs <;> simp
      by_cases ends : endsLine (fun _ => false) character rest = true
      · rw [ropePosition, if_pos (endsLine_of_plainly ends)] at isLater
        have later := @ih offset line column (Nat.lt_of_succ_lt_succ isLater)
        rw [if_pos ends]
        omega
      · have later := @ih offset (line + 1) column (by omega)
        rw [if_neg ends]
        omega

theorem line_ropePosition_pos {before : List Char} (rest : List Char)
    (broken : ∃ character ∈ before, isRopeBreak character = true) :
    0 < (ropePosition (before ++ rest) before.length).line := by
  induction before with
  | nil => exact nomatch broken
  | cons character before ih =>
    rw [exists_mem_cons_iff] at broken
    rw [cons_append, length_cons, ropePosition]
    by_cases ends : endsLine isRopeBreak character (before ++ rest) = true
    · rw [if_pos ends]
      exact Nat.succ_pos _
    · have later := ih (broken.resolve_left fun isBreak => ends (endsLine_of_break isBreak _))
      rw [if_neg ends, if_neg (by omega)]
      exact later

/-- After a character that ends a line for the rope alone, the client reads too far. -/
theorem past_of_broken {before : List Char} (rest : List Char)
    (broken : ∃ character ∈ before, isRopeBreak character = true) :
    min (before.length + 1) (before ++ rest).length
      ≤ clientOffset (before ++ rest) (ropePosition (before ++ rest) before.length).line
        (ropePosition (before ++ rest) before.length).character := by
  induction before with
  | nil => exact nomatch broken
  | cons character before ih =>
    have laterLine := @line_ropePosition_pos before rest
    have past := @past_of_line_lt (before ++ rest) before.length
    rw [exists_mem_cons_iff] at broken
    rw [cons_append, length_cons, length_cons, ropePosition]
    generalize ropePosition (before ++ rest) before.length = position at laterLine past ih ⊢
    by_cases ends : endsLine isRopeBreak character (before ++ rest) = true
    · rw [if_pos ends, clientOffset]
      by_cases plainly : endsLine (fun _ => false) character (before ++ rest) = true
      · have notBreak : ¬isRopeBreak character = true := by
          rcases endsLine_iff.1 plainly with rfl | ⟨rfl, _⟩ <;> decide
        have later := ih (broken.resolve_left notBreak)
        rw [if_pos plainly]
        dsimp only
        omega
      · have later := @past (position.line + 1) position.character (Nat.lt_succ_self _)
        rw [if_neg plainly]
        dsimp only
        omega
    · have inBefore := broken.resolve_left fun isBreak => ends (endsLine_of_break isBreak _)
      have later := ih inBefore
      have notPlainly : ¬endsLine (fun _ => false) character (before ++ rest) = true :=
        mt endsLine_of_plainly ends
      have notFirst := Nat.ne_of_gt (laterLine inBefore)
      have ⟨line, isLine⟩ := Nat.exists_eq_add_one_of_ne_zero notFirst
      rw [isLine] at later
      rw [if_neg ends, if_neg (by omega), isLine, clientOffset, if_neg notPlainly]
      omega

/-- No line before it ends for the rope alone, or it is the end. -/
theorem clientOffset_ropePosition_iff {before rest : List Char}
    (whole : ¬(before.getLast? = some '\r' ∧ rest.head? = some '\n')) :
    clientOffset (before ++ rest) (ropePosition (before ++ rest) before.length).line
        (ropePosition (before ++ rest) before.length).character = before.length
      ↔ rest = [] ∨ ∀ character ∈ before, isRopeBreak character = false := by
  by_cases plain : ∀ character ∈ before, isRopeBreak character = false
  · exact iff_of_true (clientOffset_ropePosition before plain whole) (.inr plain)
  · have broken : ∃ character ∈ before, isRopeBreak character = true := by
      by_contra none
      exact plain fun character member => Bool.eq_false_iff.2 fun isBreak =>
        none ⟨character, member, isBreak⟩
    have past := past_of_broken rest broken
    have within := clientOffset_le (before ++ rest)
      (ropePosition (before ++ rest) before.length).line
      (ropePosition (before ++ rest) before.length).character
    rw [or_iff_left plain, ← length_eq_zero_iff]
    rw [length_append] at past within
    omega

/-! ### Documents -/

structure Link where
  targetRaw : List Char
  start : Nat
  stop : Nat
deriving DecidableEq

/-- The wikilinks of `extract_links`; links of other kinds are not retargeted. -/
def extractLinks (parse : List Char → List Located) (body : List Char) : List Link :=
  (outsideBlocks false false (parse body)).flatMap fun located =>
    match located.event with
    | .text => (wikilinks (located.source body)).map fun wikilink =>
      ⟨wikilink.target, located.start + wikilink.start, located.start + wikilink.stop⟩
    | _ => []

structure Document where
  rope : List Char
  body : List Char
  bodyOffset : Nat
  links : List Link

section Documents

variable {Time : Type} (calendar : Calendar Time) (crate : TomlCrate) (yaml : YamlCrate Time)
  (validateAgeArmor : List Char → Except String Unit) (supply : Supply Time)
  (parse : List Char → List Located) (unicode : Unicode)

/-- `Document::from_text`; the body of an encrypted page is not read. -/
def Document.fromText (text : List Char) : Document :=
  let parsed := parseOrRepair calendar crate yaml validateAgeArmor supply text
  let body := if parsed.page.encryption.isSome then [] else parsed.body
  ⟨text, body, text.length - parsed.body.length, extractLinks parse body⟩

/-- `byte_offset_to_position`. -/
def Document.position (document : Document) (bodyOffset : Nat) : Position :=
  ropePosition document.rope (min (document.bodyOffset + bodyOffset) document.rope.length)

/-! ### Edits -/

structure TextEdit where
  start : Position
  stop : Position
  newText : List Char
deriving DecidableEq

/-- `strip_prefix("[[")` and `strip_suffix("]]")`. -/
def withoutBrackets (raw : List Char) : Option (List Char) :=
  (stripPrefix ['[', '['] raw).bind fun inner =>
    (stripPrefix [']', ']'] inner.reverse).map List.reverse

def rewriteWikilink (rawSpanText newTarget : List Char) : List Char :=
  match splitOnce ['|'] ((withoutBrackets rawSpanText).getD rawSpanText) with
  | some (_, display) => ['[', '['] ++ newTarget ++ ['|'] ++ display ++ [']', ']']
  | none => ['[', '['] ++ newTarget ++ [']', ']']

def linkMatchesTarget (targetRaw : List Char) (names : List String) : Bool :=
  names.contains (canonicalName unicode (String.ofList targetRaw))

def buildWikilinkTextEdits (document : Document) (names : List String) (newName : List Char) :
    List TextEdit :=
  document.links.filterMap fun link =>
    if link.start = 0 ∧ link.stop = 0 then none
    else if linkMatchesTarget unicode link.targetRaw names then
      some ⟨document.position link.start, document.position link.stop,
        rewriteWikilink ((document.body.take link.stop).drop link.start) newName⟩
    else none

def readEdit (text : List Char) (edit : TextEdit) : Edit Char :=
  ⟨clientOffset text edit.start.line edit.start.character,
    clientOffset text edit.stop.line edit.stop.character, edit.newText⟩

def applied (text : List Char) (edits : List TextEdit) : List Char :=
  Splice.applyEdits text (edits.map (readEdit text))

/-! ### What the edits are for -/

def bodyWikilinks (bodyOffset : Nat) (body : List Char) : List Wikilink :=
  (outsideBlocks false false (parse body)).flatMap fun located =>
    match located.event with
    | .text => (wikilinks (located.source body)).map fun wikilink =>
      { wikilink with start := bodyOffset + located.start + wikilink.start }
    | _ => []

def retargeted (newName : List Char) (wikilink : Wikilink) : Edit Char :=
  ⟨wikilink.start, wikilink.stop, match wikilink.display with
    | some display => ['[', '['] ++ newName ++ ['|'] ++ display ++ [']', ']']
    | none => ['[', '['] ++ newName ++ [']', ']']⟩

def namedLinks (document : Document) (names : List String) : List Wikilink :=
  (bodyWikilinks parse document.bodyOffset document.body).filter fun wikilink =>
    linkMatchesTarget unicode wikilink.target names

/-- Each link stands in the text, after the one before, and only the links are replaced. -/
structure RetargetsLinks (text : List Char) (links : List Wikilink) (newName : List Char)
    (edits : List TextEdit) : Prop where
  stands : ∀ wikilink ∈ links, ∃ before after,
    text = before ++ (['[', '['] ++ wikilink.inner ++ [']', ']']) ++ after
      ∧ before.length = wikilink.start
  apart : links.Pairwise fun first second => first.stop ≤ second.start
  reads : edits.map (readEdit text) = links.map (retargeted newName)
  replaced : applied text edits
    = Splice.splice text (Splice.lastFirst (links.map (retargeted newName)))

/-- Nothing breaks lines for the rope alone before a link, nor in one that does not end the text. -/
def Unbroken (text : List Char) (wikilink : Wikilink) : Prop :=
  (∀ character ∈ text.take wikilink.start, isRopeBreak character = false)
    ∧ (wikilink.stop = text.length
      ∨ ∀ character ∈ text.take wikilink.stop, isRopeBreak character = false)

end Documents

/-! ### Links in the text -/

theorem source_of_matchWikilink {text inner : List Char} (found : matchWikilink text = some inner) :
    ∃ after, text = (['[', '['] ++ inner ++ [']', ']']) ++ after := by
  unfold matchWikilink at found
  split at found
  · rename_i rest
    dsimp only at found
    split_ifs at found with closed
    obtain rfl := Option.some.inj found
    have ⟨after, isRest⟩ := @List.takeWhile_prefix _ rest
      fun character => decide (character ≠ '[' ∧ character ≠ ']')
    generalize rest.takeWhile _ = inner at closed isRest
    obtain rfl := isRest
    rw [drop_left] at closed
    refine ⟨after.drop 2, ?_⟩
    rw [← take_append_drop 2 after, closed.2]
    simp
  · cases found

theorem source_of_wikilinksFrom {text : List Char} : ∀ {skip position : Nat},
    ∀ wikilink ∈ wikilinksFrom skip position text, ∃ before after,
      text = before ++ (['[', '['] ++ wikilink.inner ++ [']', ']']) ++ after
        ∧ position + before.length = wikilink.start := by
  induction text with
  | nil =>
    intro skip position wikilink member
    cases member
  | cons character rest ih =>
    intro skip position wikilink member
    have later : ∀ {skip : Nat}, wikilink ∈ wikilinksFrom skip (position + 1) rest →
        ∃ before after, character :: rest
          = before ++ (['[', '['] ++ wikilink.inner ++ [']', ']']) ++ after
          ∧ position + before.length = wikilink.start := by
      intro skip inRest
      obtain ⟨before, after, isRest, isStart⟩ := ih wikilink inRest
      refine ⟨character :: before, after, by rw [isRest]; rfl, ?_⟩
      rw [length_cons]
      omega
    unfold wikilinksFrom at member
    cases skip with
    | succ skip => exact later member
    | zero =>
      dsimp only at member
      cases found : matchWikilink (character :: rest) with
      | none =>
        rw [found] at member
        exact later member
      | some inner =>
        rw [found] at member
        rcases mem_cons.1 member with rfl | inRest
        · obtain ⟨after, isText⟩ := source_of_matchWikilink found
          exact ⟨[], after, isText, rfl⟩
        · exact later inRest

theorem rewriteWikilink_source (inner newName : List Char) :
    rewriteWikilink (['[', '['] ++ inner ++ [']', ']']) newName
      = match (splitOnce ['|'] inner).map Prod.snd with
        | some display => ['[', '['] ++ newName ++ ['|'] ++ display ++ [']', ']']
        | none => ['[', '['] ++ newName ++ [']', ']'] := by
  have bare : withoutBrackets (['[', '['] ++ inner ++ [']', ']']) = some inner := by
    simp [withoutBrackets, stripPrefix]
  rw [rewriteWikilink, bare, Option.getD_some]
  cases splitOnce ['|'] inner <;> rfl

section Bodies

variable {parse : List Char → List Located}

/-- A wikilink of the body stands in it. -/
theorem stands_of_bodyWikilinks {body : List Char} {bodyOffset : Nat}
    (parsed : Parsed body (parse body)) : ∀ wikilink ∈ bodyWikilinks parse bodyOffset body,
      ∃ before after, body = before ++ (['[', '['] ++ wikilink.inner ++ [']', ']']) ++ after
        ∧ bodyOffset + before.length = wikilink.start := by
  intro wikilink member
  obtain ⟨located, isVisible, among⟩ := mem_flatMap.1 member
  have bounds := parsed.bounds located ((outsideBlocks_sublist _ _ _).subset isVisible)
  cases isEvent : located.event with
  | text =>
    rw [isEvent] at among
    obtain ⟨found, isFound, rfl⟩ := mem_map.1 among
    obtain ⟨before, after, isSource, isStart⟩ := source_of_wikilinksFrom found isFound
    refine ⟨body.take located.start ++ before, after ++ body.drop located.stop, ?_, ?_⟩
    · have first : (body.take located.stop).take located.start = body.take located.start := by
        rw [take_take, Nat.min_eq_left bounds.1]
      calc body = body.take located.stop ++ body.drop located.stop :=
            (take_append_drop _ _).symm
        _ = (body.take located.start ++ located.source body) ++ body.drop located.stop := by
            rw [← first, Located.source, take_append_drop located.start]
        _ = _ := by
            rw [isSource]
            simp only [append_assoc]
    · rw [length_append, length_take]
      dsimp only
      omega
  | _ =>
    rw [isEvent] at among
    cases among

theorem pairwise_bodyWikilinks {body : List Char} (bodyOffset : Nat)
    (parsed : Parsed body (parse body)) : (bodyWikilinks parse bodyOffset body).Pairwise
      fun first second => first.stop ≤ second.start := by
  rw [bodyWikilinks, pairwise_flatMap]
  have visible := parsed.separate.sublist (outsideBlocks_sublist false false (parse body))
  constructor
  · intro located _
    cases located.event with
    | text =>
      rw [pairwise_map]
      apply (pairwise_wikilinksFrom 0 0 (located.source body)).imp
      intro first second before
      simp only [Wikilink.stop] at before ⊢
      omega
    | _ => exact .nil
  · apply visible.imp_of_mem
    intro first second isFirst isSecond separate wikilink among other amongOther
    have bounds := parsed.bounds first ((outsideBlocks_sublist _ _ _).subset isFirst)
    cases firstEvent : first.event with
    | text =>
      rw [firstEvent] at among
      cases secondEvent : second.event with
      | text =>
        rw [secondEvent] at amongOther
        obtain ⟨found, isFound, rfl⟩ := mem_map.1 among
        obtain ⟨later, isLater, rfl⟩ := mem_map.1 amongOther
        have inside := (bounds_of_wikilinksFrom found isFound).2
        rw [length_source bounds.2] at inside
        rw [Separate, firstEvent, secondEvent] at separate
        simp only [Wikilink.stop] at inside separate ⊢
        omega
      | _ =>
        rw [secondEvent] at amongOther
        cases amongOther
    | _ =>
      rw [firstEvent] at among
      cases among

theorem extractLinks_eq (body : List Char) (bodyOffset : Nat) :
    extractLinks parse body = (bodyWikilinks parse bodyOffset body).map fun wikilink =>
      ⟨wikilink.target, wikilink.start - bodyOffset, wikilink.stop - bodyOffset⟩ := by
  rw [extractLinks, bodyWikilinks, map_flatMap]
  apply flatMap_congr
  intro located _
  cases located.event with
  | text =>
    rw [map_map]
    apply map_congr_left
    intro wikilink _
    simp only [Function.comp, Wikilink.target, Wikilink.stop]
    congr 1 <;> omega
  | _ => rfl

/-- Where a position is read back. -/
theorem clientOffset_position_iff {document : Document} {before after : List Char} {offset : Nat}
    (isText : document.rope = before ++ after)
    (isOffset : document.bodyOffset + offset = before.length)
    (whole : ¬(before.getLast? = some '\r' ∧ after.head? = some '\n')) :
    clientOffset document.rope (document.position offset).line (document.position offset).character
        = document.bodyOffset + offset
      ↔ document.bodyOffset + offset = document.rope.length
        ∨ ∀ character ∈ document.rope.take (document.bodyOffset + offset),
          isRopeBreak character = false := by
  have inside : before.length ≤ document.rope.length := by
    rw [isText, length_append]
    omega
  rw [Document.position, isOffset, Nat.min_eq_left inside, isText, take_left,
    clientOffset_ropePosition_iff whole, length_append, ← length_eq_zero_iff]
  apply or_congr_left
  omega

end Bodies

section Renaming

variable {Time : Type} {calendar : Calendar Time} {crate : TomlCrate} {yaml : YamlCrate Time}
  {validateAgeArmor : List Char → Except String Unit} {supply : Supply Time}
  {parse : List Char → List Located} {unicode : Unicode} {text : List Char} {names : List String}
  {document : Document} (isDocument : Document.fromText calendar crate yaml validateAgeArmor supply
    parse text = document) (parsed : Parsed document.body (parse document.body))

include isDocument

/-- The body of a document stands at its offset, to the end of the text. -/
theorem exists_front (present : document.body ≠ []) :
    ∃ front, text = front ++ document.body ∧ front.length = document.bodyOffset := by
  obtain rfl := isDocument
  have ⟨front, isText⟩ := (@parseOrRepair_sound _ calendar crate yaml validateAgeArmor supply
    text).kept
  unfold Document.fromText at present ⊢
  dsimp only at present ⊢
  split_ifs at present ⊢ with encrypted
  · exact absurd rfl present
  · refine ⟨front, isText.symm, ?_⟩
    have length := congrArg List.length isText
    rw [length_append] at length
    omega

include parsed

/-- A wikilink of the body stands in the text. -/
theorem stands_of_document : ∀ wikilink ∈ bodyWikilinks parse document.bodyOffset document.body,
      ∃ front before after, text = front ++ before ++ (['[', '['] ++ wikilink.inner ++ [']', ']'])
          ++ after
        ∧ document.body = before ++ (['[', '['] ++ wikilink.inner ++ [']', ']']) ++ after
        ∧ front.length = document.bodyOffset ∧ (front ++ before).length = wikilink.start := by
  intro wikilink member
  have ⟨before, after, isBody, isStart⟩ := stands_of_bodyWikilinks parsed wikilink member
  have present : document.body ≠ [] := by
    rw [isBody]
    simp
  have ⟨front, isText, isOffset⟩ := exists_front isDocument present
  refine ⟨front, before, after, ?_, isBody, isOffset, ?_⟩
  · rw [isText, isBody]
    simp only [append_assoc]
  · rw [length_append, isOffset, isStart]

/-- The edit of one link, as a client reads it. -/
theorem readEdit_wikilink (newName : List Char) :
    ∀ wikilink ∈ bodyWikilinks parse document.bodyOffset document.body,
      readEdit text ⟨document.position (wikilink.start - document.bodyOffset),
        document.position (wikilink.stop - document.bodyOffset),
        rewriteWikilink ((document.body.take (wikilink.stop - document.bodyOffset)).drop
          (wikilink.start - document.bodyOffset)) newName⟩ = retargeted newName wikilink
        ↔ Unbroken text wikilink := by
  intro wikilink member
  have ⟨front, before, after, isText, isBody, isOffset, isStart⟩ :=
    stands_of_document isDocument parsed wikilink member
  have isRope : document.rope = text := by rw [← isDocument, Document.fromText]
  generalize isMiddle : ['[', '['] ++ wikilink.inner ++ [']', ']'] = middle at isText isBody
  have size : middle.length = wikilink.inner.length + 4 := by
    rw [← isMiddle]
    simp only [length_append, length_cons, length_nil]
    omega
  have startOf : document.bodyOffset + (wikilink.start - document.bodyOffset) = wikilink.start := by
    rw [length_append] at isStart
    omega
  have stopOf : document.bodyOffset + (wikilink.stop - document.bodyOffset) = wikilink.stop := by
    rw [Wikilink.stop]
    omega
  have isStop : (front ++ before ++ middle).length = wikilink.stop := by
    rw [length_append, isStart, size]
    rfl
  have slice : (document.body.take (wikilink.stop - document.bodyOffset)).drop
      (wikilink.start - document.bodyOffset) = middle := by
    have start : wikilink.start - document.bodyOffset = before.length := by
      rw [← isStart, length_append]
      omega
    have stop : wikilink.stop - document.bodyOffset = (before ++ middle).length := by
      rw [← isStop]
      simp only [length_append]
      omega
    rw [start, stop, isBody, take_left, drop_left]
  have opens := @clientOffset_position_iff document (front ++ before) (middle ++ after)
    (wikilink.start - document.bodyOffset) (by rw [isRope, isText, append_assoc])
    (by rw [startOf, isStart]) (by
      rintro ⟨_, isNewline⟩
      rw [← isMiddle] at isNewline
      cases isNewline)
  have closes := @clientOffset_position_iff document (front ++ before ++ middle) after
    (wikilink.stop - document.bodyOffset) (isRope ▸ isText) (by rw [stopOf, isStop]) (by
      rintro ⟨isReturn, _⟩
      rw [← isMiddle, getLast?_append, getLast?_append] at isReturn
      cases isReturn)
  have notEnd : wikilink.start ≠ text.length := by
    rw [isText, length_append, isStop, Wikilink.stop]
    omega
  rw [isRope, startOf, or_iff_right notEnd] at opens
  rw [isRope, stopOf] at closes
  rw [readEdit, slice, ← isMiddle, rewriteWikilink_source, retargeted, Edit.mk.injEq, opens, closes,
    Wikilink.display]
  exact ⟨fun same => ⟨same.1, same.2.1⟩, fun unbroken => ⟨unbroken.1, unbroken.2, rfl⟩⟩

/-- The edits, with the links that they are for. -/
theorem buildWikilinkTextEdits_eq (newName : List Char) :
    buildWikilinkTextEdits unicode document names newName
      = (namedLinks parse unicode document names).map fun wikilink =>
        ⟨document.position (wikilink.start - document.bodyOffset),
          document.position (wikilink.stop - document.bodyOffset),
          rewriteWikilink ((document.body.take (wikilink.stop - document.bodyOffset)).drop
            (wikilink.start - document.bodyOffset)) newName⟩ := by
  have isLinks : document.links = extractLinks parse document.body := by
    rw [← isDocument, Document.fromText]
  have stands := stands_of_document isDocument parsed
  rw [buildWikilinkTextEdits, isLinks, extractLinks_eq document.body document.bodyOffset,
    namedLinks]
  generalize bodyWikilinks parse document.bodyOffset document.body = links at stands ⊢
  induction links with
  | nil => rfl
  | cons wikilink links ih =>
    rw [forall_mem_cons] at stands
    have ⟨front, before, after, _, _, isOffset, isStart⟩ := stands.1
    have present : ¬(wikilink.start - document.bodyOffset = 0
        ∧ wikilink.stop - document.bodyOffset = 0) := by
      rw [length_append] at isStart
      simp only [Wikilink.stop]
      omega
    have later := ih stands.2
    rw [map_cons, filterMap_cons, if_neg present]
    by_cases named : linkMatchesTarget unicode wikilink.target names = true
    · rw [filter_cons_of_pos (by exact named), if_pos named, map_cons, later]
    · rw [filter_cons_of_neg (by exact named), if_neg named, later]

end Renaming

/-- **A rename retargets exactly the links of the renamed page**, where no line break of the rope
alone is before or in one. -/
theorem rename_retargets_iff {Time : Type} (calendar : Calendar Time) (crate : TomlCrate)
    (yaml : YamlCrate Time) (validateAgeArmor : List Char → Except String Unit)
    (supply : Supply Time) (parse : List Char → List Located) (unicode : Unicode)
    (text : List Char) (names : List String) (newName : List Char) {document : Document}
    (isDocument : Document.fromText calendar crate yaml validateAgeArmor supply parse text
      = document)
    (parsed : Parsed document.body (parse document.body)) :
    RetargetsLinks text (namedLinks parse unicode document names) newName
        (buildWikilinkTextEdits unicode document names newName)
      ↔ ∀ wikilink ∈ namedLinks parse unicode document names, Unbroken text wikilink := by
  have visible : (namedLinks parse unicode document names).Sublist _ := filter_sublist
  have stands := stands_of_document isDocument parsed
  have apart : (namedLinks parse unicode document names).Pairwise
      fun first second => first.stop ≤ second.start :=
    (pairwise_bodyWikilinks document.bodyOffset parsed).sublist visible
  have reads : (buildWikilinkTextEdits unicode document names newName).map (readEdit text)
        = (namedLinks parse unicode document names).map (retargeted newName)
      ↔ ∀ wikilink ∈ namedLinks parse unicode document names, Unbroken text wikilink := by
    rw [buildWikilinkTextEdits_eq isDocument parsed, map_map, map_inj_left]
    apply forall₂_congr
    intro wikilink member
    exact readEdit_wikilink isDocument parsed newName wikilink (visible.subset member)
  refine ⟨fun retargets => reads.1 retargets.reads, fun unbroken => ?_⟩
  refine ⟨fun wikilink member => ?_, apart, reads.2 unbroken, ?_⟩
  · have ⟨front, before, after, isText, _, _, isStart⟩ := stands wikilink (visible.subset member)
    exact ⟨front ++ before, after, isText, isStart⟩
  · rw [applied, reads.2 unbroken]
    apply Splice.applyEdits_eq_splice
    · rw [pairwise_map]
      apply apart.imp
      intro first second before
      refine .inl ⟨before, ?_⟩
      simp only [retargeted, Wikilink.stop] at before ⊢
      omega
    · rw [forall_mem_map]
      intro wikilink member
      have ⟨front, before, after, isText, _, _, isStart⟩ :=
        stands wikilink (visible.subset member)
      have size := congrArg List.length isText
      simp only [length_append, length_cons, length_nil] at size isStart
      simp only [retargeted, Wikilink.stop]
      omega

def twoLines : List Located := [⟨.text, 0, 11⟩, ⟨.other, 11, 12⟩, ⟨.text, 12, 24⟩]

def plainText : List Char := "see [[old]]\nanother line".toList

def tabbedText : List Char := "see\x0b[[old]]\nanother line".toList

def sampleDocument (text : List Char) : Document :=
  Document.fromText sampleCalendar stampedCrate protectedYamlCrate (fun _ => .ok ()) sampleSupply
    (fun _ => twoLines) text

def sampleEdits (text : List Char) : List TextEdit :=
  buildWikilinkTextEdits ⟨id, id⟩ (sampleDocument text) ["old"] "new".toList

theorem rename_retargets_plainText :
    RetargetsLinks plainText [⟨4, "old".toList⟩] "new".toList (sampleEdits plainText)
      ↔ ∀ wikilink ∈ [⟨4, "old".toList⟩], Unbroken plainText wikilink := by
  have isNamed : namedLinks (fun _ => twoLines) ⟨id, id⟩ (sampleDocument plainText) ["old"]
      = [⟨4, "old".toList⟩] := by
    decide
  have parsed : Parsed (sampleDocument plainText).body twoLines := by
    refine ⟨by decide, ?_⟩
    simp [twoLines, Separate]
  rw [← isNamed]
  exact rename_retargets_iff sampleCalendar stampedCrate protectedYamlCrate (fun _ => .ok ())
    sampleSupply (fun _ => twoLines) ⟨id, id⟩ plainText ["old"] "new".toList rfl parsed

/-- After a VT a client puts the new link over a word of the next line. -/
theorem rename_misses_link :
    applied tabbedText (sampleEdits tabbedText) = "see\x0b[[old]]\n[[new]] line".toList
      ∧ ¬RetargetsLinks tabbedText
        (namedLinks (fun _ => twoLines) ⟨id, id⟩ (sampleDocument tabbedText) ["old"]) "new".toList
        (sampleEdits tabbedText) := by
  refine ⟨by decide, fun retargets => ?_⟩
  have isNamed : namedLinks (fun _ => twoLines) ⟨id, id⟩ (sampleDocument tabbedText) ["old"]
      = [⟨4, "old".toList⟩] := by
    decide
  rw [isNamed] at retargets
  exact absurd retargets.reads (by decide)

end Clepsydra.Lsp
