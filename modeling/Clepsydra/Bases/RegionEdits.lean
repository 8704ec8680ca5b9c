import Clepsydra.Bases.RegionMarkers

/-!
Owns: the places at which a region is written, and what that does to the regions of a text.

Proves: exactly when they are those of the text before, with the region that was written.
-/

namespace Clepsydra.Bases.Generated

open Library Library.LineScan List
open Vault (Uuid isWhitespace hexChar hexDigit)
open CommonMark

variable {crates : Crates} {commonMark : CommonMark crates}

/-! ### Places for a region -/

structure Place (commonMark : CommonMark crates) where
  first : List Line
  spaces : List Char
  blanks : List Char
  ending : List Char
  second : List Line
  indented : IsIndentation spaces
  before : ∀ other : List Char, other.head? ≠ some '\n' →
    lines (flat first ++ other) = first ++ lines other
  blank : ∀ character ∈ blanks ++ ending, isWhitespace character = true
  after : lines (closeMarker ++ blanks ++ ending ++ flat second)
    = ⟨closeMarker ++ blanks, ending⟩ :: second

namespace Place

variable (place : Place commonMark)

def Opens : Prop := (commonMark.machine.step (commonMark.machine.run commonMark.top place.first)
    (place.spaces ++ openMarker)).2 = .opens

def text (region : List Char) : List Char := flat place.first ++ (place.spaces ++ region
    ++ (place.blanks ++ place.ending ++ flat place.second))

def start : Nat := (flat place.first).length + place.spaces.length

def restAt (region : List Char) : Nat :=
  place.start + region.length + (place.blanks ++ place.ending).length

end Place

def written (body inner : List Char) : List Char :=
  headerText (body ++ ['\n']) ++ '\n' :: inner ++ closeMarker

def closeAt (start : Nat) (body inner : List Char) : Nat :=
  start + (headerText (body ++ ['\n'])).length + 1 + inner.length

theorem length_written (start : Nat) (body inner : List Char) :
    start + (written body inner).length = closeAt start body inner + closeMarker.length := by
  rw [written, closeAt, length_append, length_append, length_cons]
  omega

namespace Place

variable (place : Place commonMark)

theorem prefix_text {region : List Char} : flat place.first <+: place.text region :=
  prefix_append _ _

theorem take_text (region : List Char) :
    (place.text region).take place.start = flat place.first ++ place.spaces := by
  have split : place.text region = (flat place.first ++ place.spaces)
      ++ (region ++ (place.blanks ++ place.ending ++ flat place.second)) := by
    simp [text]
  rw [split, start, ← length_append, take_left]

theorem drop_text_start (region : List Char) :
    (place.text region).drop (place.start + region.length)
      = place.blanks ++ place.ending ++ flat place.second := by
  have split : place.text region = (flat place.first ++ place.spaces ++ region)
      ++ (place.blanks ++ place.ending ++ flat place.second) := by
    simp [text]
  rw [split, start, ← length_append, ← length_append, drop_left]

theorem drop_text (region : List Char) :
    (place.text region).drop (place.restAt region) = flat place.second := by
  rw [restAt, ← drop_drop, drop_text_start, drop_left]

theorem restAt_le (region : List Char) : place.restAt region ≤ (place.text region).length := by
  simp only [restAt, start, text, length_append]
  omega

variable {place} {body inner : List Char}

theorem lines_text (ends : EndsLine inner) : lines (place.text (written body inner))
      = place.first ++ (headerLines place.spaces (body ++ ['\n'])
        ++ (lines inner ++ ⟨closeMarker ++ place.blanks, place.ending⟩ :: place.second)) := by
  have region : place.spaces ++ written body inner
        ++ (place.blanks ++ place.ending ++ flat place.second)
      = place.spaces ++ headerText (body ++ ['\n']) ++ '\n' :: (inner
        ++ (closeMarker ++ place.blanks ++ place.ending ++ flat place.second)) := by
    simp [written]
  have notNewline : (place.spaces ++ headerText (body ++ ['\n']) ++ '\n' :: (inner
      ++ (closeMarker ++ place.blanks ++ place.ending ++ flat place.second))).head? ≠ some '\n' := by
    have indented := place.indented
    generalize place.spaces = spaces at indented
    cases spaces with
    | nil =>
      show some '<' ≠ some '\n'
      decide
    | cons space spaces =>
      rw [indented space mem_cons_self]
      show some ' ' ≠ some '\n'
      decide
  rw [text, region, place.before _ notNewline, lines_header place.indented,
    lines_append_of_endsLine ends, place.after]

theorem opens_closing (place : Place commonMark) {state : commonMark.machine.State}
    (opens : (commonMark.machine.step state closeMarker).2 = .opens) :
    (commonMark.machine.step state (closeMarker ++ place.blanks)).2 = .opens :=
  commonMark.by_marker begins_closeMarker
    (begins_closeMarker.trans (prefix_append closeMarker place.blanks)) opens

theorem directives_text (opens : place.Opens) (absent : ¬terminator <:+: body ++ ['\n'])
    (ends : EndsLine inner)
    (closes : (commonMark.machine.step (commonMark.machine.run commonMark.top (lines inner))
      closeMarker).2 = .opens) :
    directives crates (place.text (written body inner))
      = commonMark.directivesFrom commonMark.top 0 place.first
        ++ ⟨place.start, headerText (body ++ ['\n'])⟩
        :: (commonMark.directivesFrom commonMark.top
            (place.start + (headerText (body ++ ['\n'])).length + 1) (lines inner)
          ++ ⟨closeAt place.start body inner, closeMarker⟩
          :: commonMark.directivesFrom commonMark.top (place.restAt (written body inner))
            place.second) := by
  have closesHere := place.opens_closing closes
  have separatesRest : commonMark.machine.Separates
      (commonMark.machine.run commonMark.top place.first)
      (headerLines place.spaces (body ++ ['\n'])
        ++ (lines inner ++ ⟨closeMarker ++ place.blanks, place.ending⟩ :: place.second)) :=
    fun continues => nomatch opens.symm.trans continues
  have separatesClosing : commonMark.machine.Separates
      (commonMark.machine.run commonMark.top (lines inner))
      (⟨closeMarker ++ place.blanks, place.ending⟩ :: place.second) :=
    fun continues => nomatch closesHere.symm.trans continues
  have inside : 0 + (flat place.first).length
        + (flat (headerLines place.spaces (body ++ ['\n']))).length
      = place.start + (headerText (body ++ ['\n'])).length + 1 := by
    rw [flat_headerLines, start, length_append, length_append, length_singleton]
    omega
  have closing : place.start + (headerText (body ++ ['\n'])).length + 1 + (flat (lines inner)).length
      = closeAt place.start body inner := by
    rw [flat_lines, closeAt]
  have rest : closeAt place.start body inner + (closeMarker ++ place.blanks ++ place.ending).length
      = place.restAt (written body inner) := by
    rw [restAt, length_written, append_assoc, length_append, Nat.add_assoc]
  rw [@directives_eq crates commonMark, lines_text ends, directivesFrom_append separatesRest,
    (directivesFrom_header place.indented opens absent _ _).2, inside,
    directivesFrom_append separatesClosing, closing, directivesFrom_closing closesHere place.blank,
    rest, Nat.zero_add]
  rfl

theorem closes_of_mem (opens : place.Opens) (absent : ¬terminator <:+: body ++ ['\n'])
    (ends : EndsLine inner) {block : Block}
    (member : block ∈ directives crates (place.text (written body inner)))
    (position : block.start = closeAt place.start body inner) :
    (commonMark.machine.step (commonMark.machine.run commonMark.top (lines inner))
      closeMarker).2 = .opens := by
  rw [@directives_eq crates commonMark, lines_text ends, ← append_assoc, ← append_assoc] at member
  have here : block.start
      = (flat (place.first ++ headerLines place.spaces (body ++ ['\n']) ++ lines inner)).length := by
    rw [position, flat_append, flat_append, flat_headerLines, flat_lines, closeAt, start]
    simp only [length_append, length_singleton]
    omega
  have some : 0 < (Line.text ⟨closeMarker ++ place.blanks, place.ending⟩).length := by
    rw [Line.text, length_append, length_append]
    exact Nat.lt_of_lt_of_le (by decide) (Nat.le_add_right_of_le (Nat.le_add_right _ _))
  have opensHere := opens_of_start member some here
  rw [run_append, run_append, (directivesFrom_header place.indented opens absent 0 []).1] at opensHere
  exact commonMark.by_marker (begins_closeMarker.trans (prefix_append closeMarker place.blanks))
    begins_closeMarker opensHere

def fresh (place : Place commonMark) (descriptor : GeneratedRegionDescriptor)
    (body inner : List Char) : GeneratedRegion :=
  Pending.close crates ⟨descriptor, place.start, place.start + (headerText (body ++ ['\n'])).length⟩
    (place.text (written body inner)) (closeAt place.start body inner)

theorem slice_payload (place : Place commonMark) (body inner : List Char) :
    slice (place.text (written body inner))
        ⟨place.start + (headerText (body ++ ['\n'])).length, closeAt place.start body inner⟩
      = '\n' :: inner := by
  have split : place.text (written body inner)
      = (flat place.first ++ place.spaces ++ headerText (body ++ ['\n']))
        ++ ('\n' :: inner ++ (closeMarker ++ (place.blanks ++ place.ending ++ flat place.second))) := by
    simp [text, written]
  have before : (flat place.first ++ place.spaces ++ headerText (body ++ ['\n'])).length
      = place.start + (headerText (body ++ ['\n'])).length := by
    rw [start, length_append, length_append]
  have stop : closeAt place.start body inner
      = place.start + (headerText (body ++ ['\n'])).length + ('\n' :: inner).length := by
    rw [closeAt, length_cons]
    omega
  rw [split, stop, ← before]
  exact slice_middle _ _ _

/-- Its payload lets the end marker stand and has no directives. -/
theorem parse_text_iff (opens : place.Opens) (absent : ¬terminator <:+: body ++ ['\n'])
    (ends : EndsLine inner) {descriptor : GeneratedRegionDescriptor} {id : Uuid}
    (header : readHeader crates [] (headerText (body ++ ['\n']))
      = .ok (descriptor, id, (headerText (body ++ ['\n'])).length))
    {earlier later : List GeneratedRegion} {found : GeneratedRegion} :
    parseRegions crates (place.text (written body inner)) = .ok (earlier ++ found :: later)
        ∧ found.span = ⟨place.start, place.start + (written body inner).length⟩
      ↔ (Stands crates ('\n' :: inner) ∧ directives crates ('\n' :: inner) = [])
        ∧ found = place.fresh descriptor body inner
        ∧ Marks crates (place.text (written body inner))
          (commonMark.directivesFrom commonMark.top 0 place.first) earlier
        ∧ Marks crates (place.text (written body inner))
          (commonMark.directivesFrom commonMark.top (place.restAt (written body inner)) place.second)
          later
        ∧ ((earlier ++ found :: later).map regionId).Nodup := by
  have endsPayload : EndsLine ('\n' :: inner) := by
    rcases ends with rfl | ⟨rest, rfl⟩
    · exact Or.inr ⟨[], rfl⟩
    · exact Or.inr ⟨'\n' :: rest, rfl⟩
  have standsIff : Stands crates ('\n' :: inner) ↔ (commonMark.machine.step
      (commonMark.machine.run commonMark.top (lines inner)) closeMarker).2 = .opens := by
    rw [@stands_iff crates commonMark _ endsPayload]
    exact Iff.of_eq (congrArg (fun state => (commonMark.machine.step state closeMarker).2 = .opens)
      (run_blank ['\n'] (lines inner)))
  have inertIff : directives crates ('\n' :: inner) = [] ↔ commonMark.directivesFrom commonMark.top
      (place.start + (headerText (body ++ ['\n'])).length + 1) (lines inner) = [] := by
    rw [@directives_feed crates commonMark, directivesFrom_eq_nil_iff]
    exact (directivesFrom_eq_nil_iff _ _ _).symm
  rw [standsIff, inertIff, parseRegions_ok_iff]
  constructor
  · rintro ⟨⟨marks, nodup⟩, span⟩
    have ⟨firstFound, rest, split, marksFirst, marksRest⟩ := marks.exists_append
    cases marksRest with
    | region isOpening header' isClosing marksLater =>
      rename_i opening closing descriptor' id' stop' lastFound
      have ⟨startsHere, stopsHere⟩ := Span.mk.inj span
      dsimp only at startsHere stopsHere
      rw [length_written] at stopsHere
      have closesAt : closing.start = closeAt place.start body inner :=
        Nat.add_right_cancel stopsHere
      have member : closing ∈ directives crates (place.text (written body inner)) := by
        rw [split]
        exact mem_append_right _ (mem_cons_of_mem _ mem_cons_self)
      have closes := closes_of_mem opens absent ends member closesAt
      rw [directives_text opens absent ends closes] at split
      have beforeRest : closeAt place.start body inner < place.restAt (written body inner) := by
        rw [restAt, length_written]
        have some : 0 < closeMarker.length := by decide
        omega
      have afterStart : place.start + (headerText (body ++ ['\n'])).length
          < closeAt place.start body inner := by
        rw [closeAt]
        omega
      have inside := fun block member =>
        @bounds_of_mem_directivesFrom crates commonMark block commonMark.top
          (place.start + (headerText (body ++ ['\n'])).length + 1) (lines inner) member
      have later := fun block member =>
        @bounds_of_mem_directivesFrom crates commonMark block commonMark.top
          (place.restAt (written body inner)) place.second member
      rw [flat_lines] at inside
      -- the header is the only directive at its place, and so is the end marker
      have notEarlier : opening ∉ commonMark.directivesFrom commonMark.top 0 place.first := by
        intro member
        have bounds := bounds_of_mem_directivesFrom member
        rw [startsHere, start] at bounds
        omega
      have notLater : opening ∉ commonMark.directivesFrom commonMark.top
            (place.start + (headerText (body ++ ['\n'])).length + 1) (lines inner)
          ++ ⟨closeAt place.start body inner, closeMarker⟩
          :: commonMark.directivesFrom commonMark.top (place.restAt (written body inner))
            place.second := by
        rw [mem_append, mem_cons]
        rintro (member | rfl | member)
        · have bounds := inside opening member
          omega
        · dsimp only at startsHere
          omega
        · have bounds := later opening member
          omega
      have ⟨isFirst, isHeader, isRest⟩ := (append_cons_inj_of_notMem notEarlier notLater).1 split
      have notInside : closing ∉ commonMark.directivesFrom commonMark.top
          (place.start + (headerText (body ++ ['\n'])).length + 1) (lines inner) := by
        intro member
        have bounds := inside closing member
        rw [closesAt, closeAt] at bounds
        omega
      have notAfter : closing ∉ commonMark.directivesFrom commonMark.top
          (place.restAt (written body inner)) place.second := by
        intro member
        have bounds := later closing member
        omega
      rw [← nil_append (closing :: lastFound)] at isRest
      have ⟨isInner, isEnd, isLast⟩ := (append_cons_inj_of_notMem notInside notAfter).1 isRest
      subst isHeader isEnd
      obtain ⟨rfl, same⟩ := Prod.mk.inj (Except.ok.inj (header.symm.trans header'))
      obtain ⟨rfl, rfl⟩ := Prod.mk.inj same
      exact ⟨⟨closes, isInner⟩, rfl, isFirst ▸ marksFirst, isLast ▸ marksLater, nodup⟩
  · rintro ⟨⟨closes, inert⟩, rfl, marksFirst, marksRest, nodup⟩
    refine ⟨⟨?_, nodup⟩, ?_⟩
    · rw [directives_text opens absent ends closes, inert, nil_append]
      have begins : openMarker <+: headerText (body ++ ['\n']) := by
        rw [headerText, append_assoc]
        exact prefix_append _ _
      exact marksFirst.append (Marks.region begins header rfl marksRest)
    · rw [length_written]
      rfl

end Place

/-! ### Regions that are formatted -/

variable {output : List Char}

/-- A descriptor that is printed ends its line and is read back, with the known keys. -/
structure ReadsBack (crates : Crates) : Prop where
  ended : ∀ {descriptor : GeneratedRegionDescriptor} {header : List Char},
    crates.tomlToString descriptor = .ok header → ∃ body, header = body ++ ['\n']
  read : ∀ {descriptor : GeneratedRegionDescriptor} {header : List Char},
    crates.tomlToString descriptor = .ok header →
      ∃ config, crates.tomlFromStr ('\n' :: header) = .ok config
        ∧ (crates.keys config).all (descriptorKeys.contains ·) = true
        ∧ crates.tryInto config = .ok descriptor

theorem isUpper_hexChar : ∀ digit : Fin 16, (hexChar digit).isUpper = false := by decide

theorem isLowerHex_hexChar (digit : Fin 16) : isLowerHex (hexChar digit) = true := by
  rw [isLowerHex, Vault.hexDigit_hexChar, isUpper_hexChar]
  rfl

theorem stripFingerprint_fingerprint (payload : List Char) :
    stripFingerprint (fingerprint crates payload)
      = .ok ((crates.blake3 payload).val.map hexChar) := by
  have begins : fingerprintStart.isPrefixOf (fingerprint crates payload) = true := by
    rw [List.isPrefixOf_iff_prefix, fingerprint]
    exact prefix_append _ _
  rw [stripFingerprint, if_pos begins, fingerprint, drop_left]

theorem exists_of_formatRegion (toml : ReadsBack crates) {id : String} {selection : RenderSelection}
    {formatted : List Char} (success : formatRegion crates id selection output = .ok formatted) :
    ∃ body inner parsed, formatted = written body inner ∧ payloadOf output = '\n' :: inner
      ∧ EndsLine inner ∧ ¬terminator <:+: body ++ ['\n'] ∧ Uuid.parse id = some parsed
      ∧ readHeader crates [] (headerText (body ++ ['\n']))
        = .ok (⟨1, id, selection, fingerprint crates (payloadOf output)⟩, parsed,
          (headerText (body ++ ['\n'])).length) := by
  unfold formatRegion at success
  have ⟨_, _, success⟩ := Fallible.of_bind_ok success
  have ⟨parsed, isId, success⟩ := Fallible.of_bind_ok success
  have ⟨header, isPrinted, success⟩ := Fallible.of_bind_ok success
  have ⟨_, isSafe, success⟩ := Fallible.of_bind_ok success
  rw [Fallible.mapError_ok_iff] at isPrinted
  rw [ensure_ok_iff, Option.isNone_iff_eq_none, splitOnce_eq_none_iff (by decide)] at isSafe
  obtain ⟨body, rfl⟩ := toml.ended isPrinted
  have ⟨config, isConfig, known, decoded⟩ := toml.read isPrinted
  obtain rfl := Except.ok.inj success
  have content : (openMarker ++ '\n' :: (body ++ ['\n'])).drop openMarker.length
      = '\n' :: (body ++ ['\n']) := drop_left
  refine ⟨body, '\n' :: trimFeeds (replaceBreaks output) ++ ['\n', '\n'], parsed, ?_, rfl, Or.inr ?_,
    isSafe, parseId_ok_iff.1 isId, ?_⟩
  · simp [written, headerText, payloadOf]
  · exact ⟨'\n' :: trimFeeds (replaceBreaks output) ++ ['\n'], by simp⟩
  · rw [readHeader_ok_iff]
    refine ⟨openMarker ++ '\n' :: (body ++ ['\n']), config,
      (crates.blake3 (payloadOf output)).val.map hexChar, ?_, ?_, ?_, known, decoded, rfl, isId,
      not_mem_nil, stripFingerprint_fingerprint _, ?_, ?_⟩
    · rw [findHeader, splitOnce_headerText isSafe]
    · rw [content]
      rfl
    · rw [content]
      exact isConfig
    · rw [length_map, (crates.blake3 (payloadOf output)).property]
      rw [Bool.and_eq_true, all_map]
      exact ⟨rfl, all_eq_true.2 fun digit _ => isLowerHex_hexChar digit⟩
    · simp only [headerText, length_append, length_cons]

/-! ### Regions that were read -/

variable {markdown : List Char} {earlier later : List GeneratedRegion} {region : GeneratedRegion}

theorem exists_of_startsOnNewLine {content : List Char} (newLine : startsOnNewLine content = true) :
    ∃ character rest, content = character :: rest ∧ (character = '\n' ∨ character = '\r') := by
  rw [startsOnNewLine, Bool.or_eq_true, isPrefixOf_iff_prefix, isPrefixOf_iff_prefix]
    at newLine
  rcases newLine with ⟨rest, isContent⟩ | ⟨rest, isContent⟩
  · exact ⟨'\n', rest, isContent.symm, Or.inl rfl⟩
  · exact ⟨'\r', '\n' :: rest, isContent.symm, Or.inr rfl⟩

theorem findHeader_eq_ok {text header : List Char} (found : findHeader text = .ok header) :
    ∃ after, header ++ after = text := by
  unfold findHeader at found
  cases split : splitOnce terminator text with
  | none =>
    rw [split] at found
    exact nomatch found
  | some parts =>
    rw [split] at found
    obtain rfl : parts.1 = header := Except.ok.inj found
    exact ⟨terminator ++ parts.2, (append_of_splitOnce split).1.symm⟩

theorem content_of_header {text rest ending next more : List Char}
    (ends : Ends ('<' :: rest) ending next) (isMore : more <+: next)
    (plain : IsPlain ('<' :: rest)) (isText : text = trimEnd ('<' :: rest ++ ending ++ more))
    (begins : openMarker <+: text) {descriptor : GeneratedRegionDescriptor} {id : Uuid} {stop : Nat}
    (header : readHeader crates [] text = .ok (descriptor, id, stop)) : '<' :: rest = openMarker := by
  have ⟨before, _, _, found, newLine, _⟩ := readHeader_ok_iff.1 header
  have inLine : openMarker <+: '<' :: rest :=
    prefix_of_ends isPlain_openMarker ends isMore (begins.trans (isText ▸ trimEnd_initial _))
  have ⟨others, isLine⟩ := inLine
  have ⟨character, content, isContent, isBreak⟩ := exists_of_startsOnNewLine newLine
  -- the marker is followed by the break that the content of the header begins with
  have long : openMarker.length < before.length := by
    have length := congrArg List.length isContent
    rw [length_drop, length_cons] at length
    omega
  have split : before <+: text := findHeader_eq_ok found
  have inHeader : openMarker <+: before := prefix_of_prefix_length_le begins split long.le
  obtain ⟨tail, rfl⟩ := inHeader
  rw [drop_left] at isContent
  have isNext : openMarker ++ [character] <+: openMarker ++ (others ++ (ending ++ more)) := by
    have first : openMarker ++ [character] <+: text := by
      have ⟨after, isText⟩ := split
      rw [← isText, isContent, append_assoc, prefix_append_right_inj]
      exact ⟨content ++ after, rfl⟩
    have whole := first.trans (isText ▸ trimEnd_initial _)
    rw [← isLine, append_assoc, append_assoc] at whole
    exact whole
  cases others with
  | nil => rw [← isLine, append_nil]
  | cons other others =>
    exfalso
    rw [prefix_append_right_inj] at isNext
    have same : character = other := (cons_prefix_cons.1 isNext).1
    have isPlain := plain other (isLine ▸ mem_append_right _ mem_cons_self)
    rcases isBreak with isFeed | isReturn
    · exact isPlain.1 (same ▸ isFeed)
    · exact isPlain.2 (same ▸ isReturn)

theorem content_of_closing {rest ending next more : List Char}
    (ends : Ends ('<' :: rest) ending next) (isMore : more <+: next)
    (isText : closeMarker = trimEnd ('<' :: rest ++ ending ++ more)) :
    ∃ blanks, '<' :: rest = closeMarker ++ blanks
      ∧ ∀ character ∈ blanks ++ ending, isWhitespace character = true := by
  have inLine : closeMarker <+: '<' :: rest :=
    prefix_of_ends isPlain_closeMarker ends isMore (isText ▸ trimEnd_initial _)
  have ⟨blanks, isLine⟩ := inLine
  refine ⟨blanks, isLine.symm, ?_⟩
  have ⟨cut, split, blank⟩ := exists_of_trimEnd ('<' :: rest ++ ending ++ more)
  rw [← isText, ← isLine, append_assoc, append_assoc, append_cancel_left_eq] at split
  intro character member
  apply blank character
  rw [← split, ← append_assoc]
  exact mem_append_left _ member

/-- A region that was read stands where its markers open blocks, between its neighbours. -/
theorem exists_place (commonMark : CommonMark crates)
    (parsed : parseRegions crates markdown = .ok (earlier ++ region :: later)) :
    ∃ place : Place commonMark, place.Opens ∧ place.start = region.span.start
      ∧ region.span.start ≤ markdown.length ∧ region.span.stop ≤ markdown.length
      ∧ markdown.take region.span.start = flat place.first ++ place.spaces
      ∧ markdown.drop region.span.stop = place.blanks ++ place.ending ++ flat place.second
      ∧ Marks crates markdown (commonMark.directivesFrom commonMark.top 0 place.first) earlier
      ∧ Marks crates markdown (commonMark.directivesFrom commonMark.top
        (region.span.stop + (place.blanks ++ place.ending).length) place.second) later := by
  obtain ⟨found, rest, split, marksFirst, marksRest⟩ :=
    (parseRegions_ok_iff.1 parsed).1.exists_append
  rw [@directives_eq crates commonMark] at split
  cases marksRest with
  | region isOpening header isClosing marksLater =>
    rename_i opening closing descriptor id stop lastFound
    obtain ⟨first, line, after, spaces, tail, parts, indented, content, opens, isFirst, _, starts,
      more, isMore, isText⟩ := exists_line_of_directive split
    have splitClosing : commonMark.directivesFrom commonMark.top 0 (lines markdown)
        = (found ++ [opening]) ++ closing :: lastFound := by
      rw [split, append_assoc]
      rfl
    obtain ⟨first', line', second, spaces', tail', parts', indented', content', opens', _, isLast,
      stops, more', isMore', isText'⟩ := exists_line_of_directive splitClosing
    obtain ⟨plain, ends, _⟩ := ends_of_lines parts
    obtain ⟨plain', ends', _⟩ := ends_of_lines parts'
    rw [content] at plain ends opens
    rw [content'] at plain' ends' opens'
    have isHeader : '<' :: tail = openMarker := by
      refine content_of_header (ends.replace (cons_ne_nil _ _)) isMore ?_ isText isOpening header
      exact fun character member => plain character (mem_append_right _ member)
    obtain ⟨blanks, isEnd, blank⟩ := content_of_closing
      (ends'.replace (cons_ne_nil _ _)) isMore' (isClosing.symm.trans isText')
    have plainEnd : IsPlain (closeMarker ++ blanks) := by
      rw [← isEnd]
      exact fun character member => plain' character (mem_append_right _ member)
    have some : closeMarker ++ blanks ≠ [] := append_ne_nil_of_left_ne_nil (by decide) _
    let place : Place commonMark :=
      ⟨first, spaces, blanks, line'.ending, second, indented, fun _ => lines_flat_append parts,
        blank, lines_replace_content parts' plainEnd some⟩
    have textFirst : ∃ others, markdown = (flat first ++ spaces) ++ others := by
      rw [← flat_lines markdown, parts, flat_append, flat_cons, Line.text, content]
      exact ⟨'<' :: tail ++ (line.ending ++ flat after), by simp only [append_assoc]⟩
    have textLast : markdown = (flat first' ++ spaces' ++ closeMarker)
        ++ (blanks ++ line'.ending ++ flat second) := by
      rw [← flat_lines markdown, parts', flat_append, flat_cons, Line.text, content', isEnd]
      simp only [append_assoc]
    have isStart : (flat first ++ spaces).length = opening.start := by
      rw [starts, length_append]
    have isStop : (flat first' ++ spaces' ++ closeMarker).length
        = closing.start + closeMarker.length := by
      rw [stops, length_append, length_append]
    refine ⟨place, ?_, ?_, ?_, ?_, ?_, ?_, ?_, ?_⟩
    · show (commonMark.machine.step (commonMark.machine.run commonMark.top first)
        (spaces ++ openMarker)).2 = .opens
      rw [← isHeader]
      exact opens
    · exact starts.symm
    · obtain ⟨others, same⟩ := textFirst
      show opening.start ≤ markdown.length
      rw [same, length_append, isStart]
      exact Nat.le_add_right _ _
    · show closing.start + closeMarker.length ≤ markdown.length
      rw [textLast, length_append, isStop]
      exact Nat.le_add_right _ _
    · obtain ⟨others, same⟩ := textFirst
      show markdown.take opening.start = flat first ++ spaces
      rw [same, ← isStart, take_left]
    · show markdown.drop (closing.start + closeMarker.length) = blanks ++ line'.ending ++ flat second
      rw [textLast, ← isStop, drop_left]
    · rw [show place.first = first from rfl, isFirst]
      exact marksFirst
    · rw [isEnd] at opens' content'
      have isLine : line' = ⟨spaces' ++ (closeMarker ++ blanks), line'.ending⟩ := by
        rw [← content']
      rw [isLine, directivesFrom_indented indented' opens' blank] at isLast
      have position : (flat first').length + (spaces' ++ (closeMarker ++ blanks) ++ line'.ending).length
          = closing.start + closeMarker.length + (blanks ++ line'.ending).length := by
        rw [stops]
        simp only [length_append]
        omega
      rw [position] at isLast
      show Marks crates markdown (commonMark.directivesFrom commonMark.top
        (closing.start + closeMarker.length + (blanks ++ line'.ending).length) second) later
      rw [(List.cons.inj isLast).2]
      exact marksLater

/-! ### Edited texts -/

variable {regions : List GeneratedRegion}

def Settles (crates : Crates) (output : List Char) : Prop :=
  Stands crates (payloadOf output) ∧ directives crates (payloadOf output) = []

/-- The regions are the same, with the new one unmodified and of the given selection, and the text
around it is unchanged. -/
def Replaced (crates : Crates) (markdown : List Char) (earlier : List GeneratedRegion)
    (region : GeneratedRegion) (later : List GeneratedRegion) (selection : RenderSelection)
    (replaced : List Char) : Prop :=
  ∃ (fresh : GeneratedRegion) (following : List GeneratedRegion),
    later = following.map (·.shift region.span.stop)
    ∧ parseRegions crates replaced
      = .ok (earlier ++ fresh :: following.map (·.shift fresh.span.stop))
    ∧ fresh.descriptor.id = region.descriptor.id ∧ fresh.descriptor.selection = selection
    ∧ fresh.modified = false
    ∧ replaced.take fresh.span.start = markdown.take region.span.start
    ∧ replaced.drop fresh.span.stop = markdown.drop region.span.stop

theorem Place.fresh_modified {place : Place commonMark} {body inner : List Char}
    (isPayload : payloadOf output = '\n' :: inner) (id : String) (selection : RenderSelection) :
    (place.fresh ⟨1, id, selection, fingerprint crates (payloadOf output)⟩ body inner).modified
      = false := by
  rw [fresh, Pending.close]
  dsimp only
  rw [slice_payload, isPayload]
  exact decide_eq_false fun different => different rfl

theorem marks_first {first : List Line} {text other : List Char} (begins : flat first <+: text)
    (begins' : flat first <+: other)
    (marks : Marks crates text (commonMark.directivesFrom commonMark.top 0 first) regions) :
    Marks crates other (commonMark.directivesFrom commonMark.top 0 first) regions := by
  have within : ∀ block ∈ commonMark.directivesFrom commonMark.top 0 first,
      block.start ≤ (flat first).length := by
    intro block member
    have bounds := bounds_of_mem_directivesFrom member
    omega
  obtain ⟨rest, rfl⟩ := begins
  obtain ⟨rest', rfl⟩ := begins'
  rw [marks_append_iff within] at marks ⊢
  exact marks

theorem marks_drop_iff {text after : List Char} {position : Nat} (ends : text.drop position = after)
    (within : position ≤ text.length) {found : List Block} :
    Marks crates text (found.map (·.shift position)) regions
      ↔ ∃ others, regions = others.map (·.shift position) ∧ Marks crates after found others := by
  have length : (text.take position).length = position := by
    rw [length_take, Nat.min_eq_left within]
  have moved := @marks_shift_iff crates found (text.take position) after regions
  rw [← ends, take_append_drop, length, ends] at moved
  exact moved

theorem marks_second_iff {text : List Char} {position : Nat} {parts : List Line}
    (ends : text.drop position = flat parts) (within : position ≤ text.length) :
    Marks crates text (commonMark.directivesFrom commonMark.top position parts) regions
      ↔ ∃ others, regions = others.map (·.shift position)
        ∧ Marks crates (flat parts) (commonMark.directivesFrom commonMark.top 0 parts) others := by
  have shifted := @directivesFrom_shift crates commonMark commonMark.top position 0 parts
  rw [Nat.add_zero] at shifted
  rw [shifted]
  exact marks_drop_iff ends within

theorem map_shift_shift (first second : Nat) (regions : List GeneratedRegion) :
    (regions.map (·.shift first)).map (·.shift second) = regions.map (·.shift (second + first)) := by
  rw [map_map]
  exact map_congr_left fun region _ => GeneratedRegion.shift_shift first second region

theorem replaceRegion_iff (commonMark : CommonMark crates) (toml : ReadsBack crates)
    {replaced : List Char} {selection : RenderSelection}
    (parsed : parseRegions crates markdown = .ok (earlier ++ region :: later))
    (edited : replaceRegion crates markdown region selection output = .ok replaced) :
    Replaced crates markdown earlier region later selection replaced ↔ Settles crates output := by
  have ⟨formatted, isFormatted, isReplaced⟩ := Fallible.of_bind_ok edited
  obtain rfl := Except.ok.inj isReplaced
  obtain ⟨body, inner, id, rfl, isPayload, ends, absent, isId, header⟩ :=
    exists_of_formatRegion toml isFormatted
  have ⟨place, opens, isStart, startWithin, stopWithin, isBefore, isAfter, marksFirst, marksSecond⟩ :=
    exists_place commonMark parsed
  have isText : markdown.take region.span.start ++ written body inner
      ++ markdown.drop region.span.stop = place.text (written body inner) := by
    rw [isBefore, isAfter, Place.text]
    simp only [append_assoc]
  have parseIff := fun earlier later found => @Place.parse_text_iff crates commonMark place body inner
    opens absent ends _ id header earlier later found
  rw [Settles, isPayload, isText]
  constructor
  · rintro ⟨fresh, following, _, read, _, _, _, sameBefore, sameAfter⟩
    have span : fresh.span = ⟨place.start, place.start + (written body inner).length⟩ := by
      have ⟨_, _, _, freshStart, freshStop, _⟩ := exists_place commonMark read
      have lengthBefore := congrArg List.length sameBefore
      have lengthAfter := congrArg List.length sameAfter
      have length := congrArg List.length isText
      rw [length_take, length_take] at lengthBefore
      rw [length_drop, length_drop] at lengthAfter
      rw [length_append, length_append, length_take, length_drop] at length
      have sameStart : fresh.span.start = place.start := by omega
      have sameStop : fresh.span.stop = place.start + (written body inner).length := by omega
      rw [← sameStop, ← sameStart]
    exact ((parseIff _ _ _).1 ⟨read, span⟩).1
  · intro settles
    have textBefore : flat place.first <+: markdown := by
      have begins := take_prefix region.span.start markdown
      rw [isBefore] at begins
      exact (prefix_append _ _).trans begins
    have textAfter : markdown.drop (region.span.stop + (place.blanks ++ place.ending).length)
        = flat place.second := by
      rw [← drop_drop, isAfter, drop_left]
    have afterWithin : region.span.stop + (place.blanks ++ place.ending).length
        ≤ markdown.length := by
      have length := congrArg List.length isAfter
      rw [length_drop, length_append] at length
      omega
    obtain ⟨others, rfl, marksOthers⟩ := (marks_second_iff textAfter afterWithin).1 marksSecond
    have isId' : regionId region = some id := isId
    have nodup := (parseRegions_ok_iff.1 parsed).2
    rw [map_append, map_cons, map_regionId_shift, isId'] at nodup
    have shifts : others.map (·.shift (place.restAt (written body inner)))
        = (others.map (·.shift (place.blanks ++ place.ending).length)).map
          (·.shift (place.start + (written body inner).length)) := by
      rw [map_shift_shift]
      rfl
    have ids : ∀ region', regionId region' = some id → ((earlier ++ region' ::
        others.map (·.shift (place.restAt (written body inner)))).map regionId).Nodup := by
      intro region' isId''
      rw [map_append, map_cons, map_regionId_shift, isId'']
      exact nodup
    have read := (parseIff earlier _ _).2 ⟨settles, rfl, marks_first textBefore
      place.prefix_text marksFirst, (marks_second_iff (place.drop_text _) (place.restAt_le _)).2
        ⟨others, rfl, marksOthers⟩, ids _ isId⟩
    refine ⟨place.fresh ⟨1, region.descriptor.id, selection, fingerprint crates (payloadOf output)⟩
      body inner, others.map (·.shift (place.blanks ++ place.ending).length), ?_, ?_, rfl, rfl,
      Place.fresh_modified isPayload _ _, ?_, ?_⟩
    · rw [map_shift_shift]
    · rw [read.2, ← shifts]
      exact read.1
    · rw [read.2, isBefore]
      exact place.take_text _
    · rw [read.2, isAfter]
      exact place.drop_text_start _

/-! ### Insertions -/

/-- The regions are the old ones and an unmodified new one at its place. -/
def Inserted (crates : Crates) (markdown : List Char) (offset : Nat)
    (regions : List GeneratedRegion) (id : String) (selection : RenderSelection)
    (inserted : List Char) : Prop :=
  ∃ (earlier : List GeneratedRegion) (fresh : GeneratedRegion) (following : List GeneratedRegion),
    regions = earlier ++ following.map (·.shift offset)
    ∧ parseRegions crates inserted = .ok (earlier ++ fresh :: following.map
      (·.shift (fresh.span.stop + (separatorAfter (markdown.drop offset)).length)))
    ∧ fresh.descriptor.id = id ∧ fresh.descriptor.selection = selection ∧ fresh.modified = false
    ∧ inserted.take fresh.span.start
      = markdown.take offset ++ separatorBefore (markdown.take offset)
    ∧ inserted.drop fresh.span.stop = separatorAfter (markdown.drop offset) ++ markdown.drop offset

/-- The regions of a text are those before an offset and those after it, each read on its own. -/
def Divides (crates : Crates) (markdown : List Char) (offset : Nat)
    (regions : List GeneratedRegion) : Prop :=
  ∃ (earlier following : List GeneratedRegion),
    parseRegions crates (markdown.take offset ++ separatorBefore (markdown.take offset))
      = .ok earlier
    ∧ parseRegions crates (markdown.drop offset) = .ok following
    ∧ regions = earlier ++ following.map (·.shift offset)

theorem endsLine_before (before : List Char) : EndsLine (before ++ separatorBefore before) := by
  unfold separatorBefore
  by_cases separated : (!before.isEmpty && !(['\n', '\n'].isSuffixOf before)) = true
  · rw [if_pos separated]
    exact Or.inr ⟨before ++ ['\n'], by simp⟩
  · rw [if_neg separated, append_nil]
    rw [Bool.and_eq_true, Bool.not_eq_true', Bool.not_eq_true', not_and_or, Bool.not_eq_false,
      Bool.not_eq_false, List.isEmpty_iff, isSuffixOf_iff_suffix] at separated
    rcases separated with empty | ⟨rest, isBefore⟩
    · exact Or.inl empty
    · exact Or.inr ⟨rest ++ ['\n'], by rw [← isBefore, append_assoc]; rfl⟩

theorem exists_after (after : List Char) :
    ∃ tail, separatorAfter after ++ after = '\n' :: '\n' :: tail
      ∧ ∀ position, commonMark.directivesFrom commonMark.top (position + 1) (lines ('\n' :: tail))
        = (directives crates after).map (·.shift (position + (separatorAfter after).length)) := by
  have shifted := fun amount position parts =>
    @directivesFrom_shift crates commonMark commonMark.top amount position parts
  unfold separatorAfter
  by_cases separated : (!(['\n', '\n'].isPrefixOf after)) = true
  · rw [if_pos separated]
    refine ⟨after, rfl, fun position => ?_⟩
    rw [@directives_eq crates commonMark, ← shifted]
    exact directivesFrom_blank (position + 1) ['\n'] (lines after)
  · rw [if_neg separated]
    rw [Bool.not_eq_true', Bool.not_eq_false, isPrefixOf_iff_prefix] at separated
    obtain ⟨tail, rfl⟩ := separated
    refine ⟨tail, rfl, fun position => ?_⟩
    have passed : directives crates (['\n', '\n'] ++ tail)
        = commonMark.directivesFrom commonMark.top 1 (lines ('\n' :: tail)) :=
      directives_feed ('\n' :: tail)
    rw [passed, ← shifted]
    rfl

def insertionPlace (commonMark : CommonMark crates) (before tail : List Char) :
    Place commonMark where
  first := lines (before ++ separatorBefore before)
  spaces := []
  blanks := []
  ending := ['\n']
  second := lines ('\n' :: tail)
  indented := nofun
  before := by
    intro other _
    rw [flat_lines]
    exact lines_append_of_endsLine (endsLine_before before) other
  blank := all_eq_true.1 (by decide)
  after := by
    rw [append_nil, flat_lines, append_assoc]
    exact lines_plain_append isPlain_closeMarker ('\n' :: tail)

theorem Place.opens_of_mem {place : Place commonMark} {body inner : List Char}
    (ends : EndsLine inner) (unindented : place.spaces = []) {block : Block}
    (member : block ∈ directives crates (place.text (written body inner)))
    (position : block.start = place.start) : place.Opens := by
  rw [@directives_eq crates commonMark, lines_text ends, headerLines, cons_append,
    cons_append] at member
  refine opens_of_start member ?_ ?_
  · rw [Line.text, length_append]
    exact Nat.succ_pos _
  · rw [position, start, unindented, length_nil, Nat.add_zero]

theorem Marks.exists_directive {found : List Block}
    (marks : Marks crates markdown found (earlier ++ region :: later)) :
    ∃ block ∈ found, block.start = region.span.start := by
  obtain ⟨first, second, rfl, _, marksSecond⟩ := marks.exists_append
  cases marksSecond with
  | region isOpening header isClosing _ =>
    exact ⟨_, mem_append_right _ mem_cons_self, rfl⟩

/-- The output settles, an end marker stands, and the text can be cut. -/
theorem insertRegion_iff (commonMark : CommonMark crates) (toml : ReadsBack crates)
    {inserted : List Char} {offset : Nat} {id : String} {selection : RenderSelection}
    (parsed : parseRegions crates markdown = .ok regions)
    (isNew : Uuid.parse id ∉ regions.map regionId)
    (edited : insertRegion crates markdown offset id selection output = .ok inserted) :
    Inserted crates markdown offset regions id selection inserted ↔ Settles crates output
        ∧ Stands crates (markdown.take offset ++ separatorBefore (markdown.take offset))
        ∧ Divides crates markdown offset regions := by
  have ⟨_, _, edited⟩ := Fallible.of_bind_ok edited
  have ⟨_, _, edited⟩ := Fallible.of_bind_ok edited
  have ⟨_, _, edited⟩ := Fallible.of_bind_ok edited
  have ⟨_, _, edited⟩ := Fallible.of_bind_ok edited
  have ⟨formatted, isFormatted, edited⟩ := Fallible.of_bind_ok edited
  obtain rfl := Except.ok.inj edited
  obtain ⟨body, inner, parsedId, rfl, isPayload, ends, absent, isId, header⟩ :=
    exists_of_formatRegion toml isFormatted
  unfold Inserted Divides
  generalize markdown.take offset = before
  generalize markdown.drop offset = after
  have ⟨tail, feeds, rest⟩ := @exists_after crates commonMark after
  let place := insertionPlace commonMark before tail
  have isText : before ++ separatorBefore before ++ written body inner ++ separatorAfter after ++ after
      = place.text (written body inner) := by
    rw [append_assoc _ (separatorAfter after), feeds]
    show _ = flat (lines (before ++ separatorBefore before)) ++ ([] ++ written body inner
      ++ ([] ++ ['\n'] ++ flat (lines ('\n' :: tail))))
    rw [flat_lines, flat_lines, append_assoc]
    rfl
  have start : place.start = (before ++ separatorBefore before).length := by
    show (flat (lines (before ++ separatorBefore before))).length + 0 = _
    rw [flat_lines, Nat.add_zero]
  have firstDirectives : commonMark.directivesFrom commonMark.top 0 place.first
      = directives crates (before ++ separatorBefore before) :=
    (directives_eq (before ++ separatorBefore before)).symm
  have secondDirectives : commonMark.directivesFrom commonMark.top
        (place.restAt (written body inner)) place.second
      = (directives crates after).map (·.shift
        (place.start + (written body inner).length + (separatorAfter after).length)) :=
    rest (place.start + (written body inner).length)
  have parseIff := fun opens earlier later found => @Place.parse_text_iff crates commonMark place
    body inner opens absent ends _ parsedId header earlier later found
  rw [secondDirectives, firstDirectives] at parseIff
  have beforeMarks : ∀ {regions : List GeneratedRegion} {text text' : List Char},
      before ++ separatorBefore before <+: text → before ++ separatorBefore before <+: text' →
      Marks crates text (directives crates (before ++ separatorBefore before)) regions →
      Marks crates text' (directives crates (before ++ separatorBefore before)) regions := by
    intro regions text text' begins begins' marks
    rw [← flat_lines (before ++ separatorBefore before)] at begins begins'
    rw [← firstDirectives] at marks ⊢
    exact marks_first begins begins' marks
  have begins : before ++ separatorBefore before <+: place.text (written body inner) := by
    rw [← isText, append_assoc, append_assoc]
    exact prefix_append _ _
  have afterAt : (place.text (written body inner)).drop
      (place.start + (written body inner).length + (separatorAfter after).length) = after := by
    rw [← isText, start, ← length_append, ← length_append, drop_left]
  have afterWithin : place.start + (written body inner).length + (separatorAfter after).length
      ≤ (place.text (written body inner)).length := by
    rw [← isText, start, ← length_append, ← length_append]
    exact (prefix_append _ after).length_le
  rw [isText, Settles, isPayload]
  constructor
  · rintro ⟨earlier, fresh, following, rfl, read, _, _, _, sameBefore, sameAfter⟩
    have ⟨marks, nodup⟩ := parseRegions_ok_iff.1 read
    have span : fresh.span = ⟨place.start, place.start + (written body inner).length⟩ := by
      have ⟨_, _, _, freshStart, freshStop, _⟩ := exists_place commonMark read
      have lengthBefore := congrArg List.length sameBefore
      have lengthAfter := congrArg List.length sameAfter
      have length := congrArg List.length isText
      rw [length_take, ← start] at lengthBefore
      rw [length_drop, length_append] at lengthAfter
      rw [length_append, length_append, length_append, ← start] at length
      have sameStart : fresh.span.start = place.start := by omega
      have sameStop : fresh.span.stop = place.start + (written body inner).length := by omega
      rw [← sameStop, ← sameStart]
    have ⟨block, member, position⟩ := marks.exists_directive
    rw [span] at position
    have opens : place.Opens := Place.opens_of_mem ends rfl member position
    have parts := (parseIff opens _ _ _).1 ⟨read, span⟩
    have ⟨settles, _, marksFirst, marksSecond, _⟩ := parts
    rw [span] at marksSecond nodup
    refine ⟨settles, ?_, earlier, following, ?_, ?_, rfl⟩
    · rw [@stands_iff crates commonMark _ (endsLine_before before)]
      exact commonMark.by_marker begins_openMarker begins_closeMarker opens
    · rw [parseRegions_ok_iff]
      refine ⟨beforeMarks begins prefix_rfl marksFirst, ?_⟩
      rw [map_append] at nodup
      exact (nodup_append.1 nodup).1
    · have ⟨others, same, marksAfter⟩ := (marks_drop_iff afterAt afterWithin).1 marksSecond
      obtain rfl : following = others := (GeneratedRegion.shift_injective _).list_map same
      rw [parseRegions_ok_iff]
      refine ⟨marksAfter, ?_⟩
      rw [map_append, map_cons, map_regionId_shift] at nodup
      exact (nodup_cons.1 (nodup_append.1 nodup).2.1).2
  · rintro ⟨settles, stands, earlier, following, readBefore, readAfter, rfl⟩
    have opens : place.Opens := by
      rw [@stands_iff crates commonMark _ (endsLine_before before)] at stands
      exact commonMark.by_marker begins_closeMarker begins_openMarker stands
    rw [parseRegions_ok_iff] at readBefore readAfter
    have nodup := (parseRegions_ok_iff.1 parsed).2
    rw [map_append, map_regionId_shift] at nodup isNew
    have ids : ∀ region, regionId region = some parsedId → ((earlier ++ region ::
        following.map (·.shift (place.start + (written body inner).length
          + (separatorAfter after).length))).map regionId).Nodup := by
      intro region isRegion
      rw [map_append, map_cons, map_regionId_shift, isRegion, nodup_middle, nodup_cons]
      exact ⟨isId ▸ isNew, nodup⟩
    have read := (parseIff opens earlier _ _).2 ⟨settles, rfl,
      beforeMarks prefix_rfl begins readBefore.1,
      (marks_drop_iff afterAt afterWithin).2 ⟨following, rfl, readAfter.1⟩, ids _ isId⟩
    refine ⟨earlier, place.fresh ⟨1, id, selection, fingerprint crates (payloadOf output)⟩ body inner,
      following, rfl, ?_, rfl, rfl, Place.fresh_modified isPayload _ _, ?_, ?_⟩
    · rw [read.2]
      exact read.1
    · rw [read.2, ← isText, start, append_assoc, append_assoc, take_left]
    · rw [read.2, ← isText, start, ← length_append, append_assoc _ (separatorAfter after),
        drop_left]

/-- The regions stay exactly where the new payload lets its end marker stand and has no
directives, and an insertion can cut the text there. -/
theorem region_edits_iff (commonMark : CommonMark crates) (toml : ReadsBack crates) :
    (∀ (markdown output replaced : List Char) (earlier later : List GeneratedRegion)
        (region : GeneratedRegion) (selection : RenderSelection),
      parseRegions crates markdown = .ok (earlier ++ region :: later) →
      replaceRegion crates markdown region selection output = .ok replaced →
      (Replaced crates markdown earlier region later selection replaced ↔ Settles crates output))
    ∧ ∀ (markdown output inserted : List Char) (offset : Nat) (regions : List GeneratedRegion)
        (id : String) (selection : RenderSelection),
      parseRegions crates markdown = .ok regions → Uuid.parse id ∉ regions.map regionId →
      insertRegion crates markdown offset id selection output = .ok inserted →
      (Inserted crates markdown offset regions id selection inserted ↔ Settles crates output
          ∧ Stands crates (markdown.take offset ++ separatorBefore (markdown.take offset))
          ∧ Divides crates markdown offset regions) :=
  ⟨fun _ _ _ _ _ _ _ parsed edited => replaceRegion_iff commonMark toml parsed edited,
    fun _ _ _ _ _ _ _ parsed isNew edited => insertRegion_iff commonMark toml parsed isNew edited⟩

/-! ### A document -/

namespace RegionSample

inductive State where
  | top
  | comment
  | fence
  | paragraph
deriving DecidableEq

inductive Move where
  | opens (tag : Tag)
  | continues
  | outside

def fenceMarker : List Char := ['`', '`', '`']

def afterComment (content : List Char) : State :=
  if (splitOnce terminator content).isSome then .top else .comment

def step : State → List Char → State × Move
  | .comment, content => (afterComment content, .continues)
  | .fence, content =>
    (if fenceMarker.isPrefixOf content then .top else .fence, .continues)
  | state, content =>
    if content.isEmpty then (.top, .outside)
    else if commentStart.isPrefixOf content then (afterComment content, .opens .htmlBlock)
    else if fenceMarker.isPrefixOf content then (.fence, .opens .other)
    else (.paragraph, if state = .paragraph then .continues else .opens .other)

/-- The blocks of all kinds, as `Machine.blocksFrom` finds those of one kind. -/
def blocksFrom (state : State) (position : Nat) (opened : Option (Tag × Nat × List Char)) :
    List Line → List (Tag × Nat × List Char)
  | [] => opened.toList
  | line :: rest =>
    let next := (step state line.content).1
    let after := position + line.text.length
    match (step state line.content).2 with
    | .opens tag => opened.toList ++ blocksFrom next after (some (tag, position, line.text)) rest
    | .continues =>
      blocksFrom next after
        (opened.map fun block => (block.1, block.2.1, block.2.2 ++ line.text)) rest
    | .outside => opened.toList ++ blocksFrom next after none rest

def eventsOf (block : Tag × Nat × List Char) : List (Event × Span) :=
  let span : Span := ⟨block.2.1, block.2.1 + block.2.2.length⟩
  [(.start block.1, span), (.other, span), (.stop block.1, span)]

def events (markdown : List Char) : List (Event × Span) :=
  (blocksFrom .top 0 none (lines markdown)).flatMap eventsOf

def kindOf (state : State) : Move → Kind
  | .opens .htmlBlock => .opens
  | .opens .other => .outside
  | .continues => if state = .comment then .continues else .outside
  | .outside => .outside

abbrev machine : Machine where
  State := State
  step state content := ((step state content).1, kindOf state (step state content).2)

def htmlOnly (block : Tag × Nat × List Char) : Option (Nat × List Char) :=
  if block.1 = .htmlBlock then some block.2 else none

def State.ofHtml : State → Bool
  | .top | .comment => true
  | .fence | .paragraph => false

theorem ofHtml_afterComment (content : List Char) : (afterComment content).ofHtml = true := by
  unfold afterComment
  split <;> rfl

theorem step_spec (state : State) (content : List Char) :
    ((step state content).2 = .opens .htmlBlock → (step state content).1.ofHtml = true)
    ∧ ((step state content).2 = .continues →
      state = .comment ∧ (step state content).1.ofHtml = true ∨ state.ofHtml = false)
    ∧ ((step state content).2 = .outside → (step state content).1 = .top) := by
  cases state with
  | comment => exact ⟨nofun, fun _ => Or.inl ⟨rfl, ofHtml_afterComment content⟩, nofun⟩
  | fence => exact ⟨nofun, fun _ => Or.inr rfl, nofun⟩
  | top | paragraph =>
    unfold step
    by_cases empty : content.isEmpty = true
    · simp [empty]
    · by_cases isComment : commentStart.isPrefixOf content = true
      · simp [empty, isComment, ofHtml_afterComment]
      · by_cases isFence : fenceMarker.isPrefixOf content = true
        · simp [empty, isComment, isFence]
        · simp [empty, isComment, isFence, State.ofHtml]

theorem filterMap_blocksFrom (parts : List Line) :
    ∀ (state : State) (position : Nat) (opened : Option (Tag × Nat × List Char)),
      (state.ofHtml = false → opened.bind htmlOnly = none) →
      (blocksFrom state position opened parts).filterMap htmlOnly
        = machine.blocksFrom state position (opened.bind htmlOnly) parts := by
  induction parts with
  | nil =>
    intro state position opened _
    cases opened with
    | none => rfl
    | some block => cases isHtml : htmlOnly block <;> simp [blocksFrom, Machine.blocksFrom, isHtml]
  | cons line rest ih =>
    intro state position opened notHtml
    have opening : (opened.toList).filterMap htmlOnly = (opened.bind htmlOnly).toList := by
      cases opened with
      | none => rfl
      | some block => cases isHtml : htmlOnly block <;> simp [isHtml]
    obtain ⟨afterOpening, afterContinuing, afterOutside⟩ := step_spec state line.content
    have changed : (opened.map fun block => (block.1, block.2.1, block.2.2 ++ line.text)).bind htmlOnly
        = (opened.bind htmlOnly).map fun block => (block.1, block.2 ++ line.text) := by
      cases opened with
      | none => rfl
      | some block =>
        obtain ⟨tag, block⟩ := block
        cases tag <;> rfl
    rw [blocksFrom, Machine.blocksFrom]
    cases move : (step state line.content).2 with
    | opens tag =>
      cases tag with
      | htmlBlock =>
        simp only [move, kindOf, filterMap_append, opening]
        rw [ih]
        · rfl
        · intro notHtml'
          rw [afterOpening move] at notHtml'
          cases notHtml'
      | other =>
        simp only [move, kindOf, filterMap_append, opening]
        rw [ih _ _ _ fun _ => rfl]
        rfl
    | continues =>
      rcases afterContinuing move with ⟨rfl, isHtml⟩ | isOther
      · simp only [move, kindOf, if_true]
        rw [ih, changed]
        intro notHtml'
        rw [isHtml] at notHtml'
        cases notHtml'
      · have notComment : state ≠ .comment := by
          rintro rfl
          cases isOther
        simp only [move, kindOf, if_neg notComment]
        rw [notHtml isOther] at changed ⊢
        rw [ih _ _ _ fun _ => changed, changed]
        rfl
    | outside =>
      simp only [move, kindOf, filterMap_append, opening]
      rw [ih _ _ none fun _ => rfl]
      rfl

theorem foldl_eventsOf (found : List (Tag × Nat × List Char)) : ∀ spans : List Span,
    (found.flatMap eventsOf).foldl htmlStep ⟨0, none, spans⟩
      = ⟨0, none, spans ++ (found.filterMap htmlOnly).map
        fun block => ⟨block.1, block.1 + block.2.length⟩⟩ := by
  induction found with
  | nil => exact fun spans => by simp
  | cons block found ih =>
    intro spans
    have ⟨tag, start, text⟩ := block
    rw [flatMap_cons, foldl_append]
    cases tag with
    | htmlBlock =>
      show (found.flatMap eventsOf).foldl htmlStep ⟨0, none, spans ++ [⟨start, start + text.length⟩]⟩
        = _
      rw [ih, append_assoc]
      rfl
    | other =>
      show (found.flatMap eventsOf).foldl htmlStep ⟨0, none, spans⟩ = _
      rw [ih]
      rfl

theorem blocks_events {crates : Crates} (same : crates.events = events) (markdown : List Char) :
    blocks crates markdown = (machine.blocksFrom State.top 0 none (lines markdown)).map
      fun block => .at block.1 block.2 := by
  have found : (blocksFrom .top 0 none (lines markdown)).filterMap htmlOnly
      = machine.blocksFrom State.top 0 none (lines markdown) :=
    filterMap_blocksFrom (lines markdown) .top 0 none fun _ => rfl
  rw [blocks, htmlBlocks, same, events, foldl_eventsOf, found, nil_append, map_map]
  apply map_congr_left
  intro block member
  have stands := @exists_text_of_mem machine block (lines markdown) State.top [] none nofun member
  have ⟨earlier, later, whole, position⟩ := stands
  rw [nil_append, flat_lines] at whole
  show Block.at block.1 (slice markdown ⟨block.1, block.1 + block.2.length⟩) = Block.at block.1 block.2
  rw [whole, ← position, slice_middle]

def regionUuid : String := "019f4d96-7ba5-7b93-b4e3-a93d134b964c"

def selection : RenderSelection := ⟨"beer", none, none, none, none, "notes"⟩

def headerStart : List Char := "version = 1\nid = \"".toList ++ regionUuid.toList
    ++ "\"\nbase = \"beer\"\ntemplate = \"notes\"\noutput_hash = \"".toList

def headerEnd : List Char := ['"', '\n']

def print : GeneratedRegionDescriptor → Except String (List Char)
  | ⟨version, id, ⟨base, none, none, none, none, template⟩, outputHash⟩ =>
    if version = 1 ∧ id = regionUuid ∧ base = "beer" ∧ template = "notes"
        ∧ outputHash.all (fun character => character.isAlphanum || character == ':') = true then
      .ok (headerStart ++ outputHash ++ headerEnd)
    else .error "unsupported"
  | _ => .error "unsupported"

def read (content : List Char) : Except String (List Char) :=
  if ('\n' :: headerStart).isPrefixOf content then
    .ok (content.drop ('\n' :: headerStart).length).dropLast.dropLast
  else .error "unsupported"

def hashOf (text : String) : List (Fin 16) := text.toList.filterMap hexDigit

def emptyHash : { digits : List (Fin 16) // digits.length = 64 } :=
  ⟨hashOf "be9a8ee3f047b38994215f103128175bd1333efd1ac0a3bbda9cb26749205ccb", by decide +kernel⟩

def fenceHash : { digits : List (Fin 16) // digits.length = 64 } :=
  ⟨hashOf "ea37cbe2d7170ef6109d4f3b09a38bdd07a3194e287f27be48a85ad79313d1fd", by decide +kernel⟩

def sampleCrates : Crates where
  events := events
  Table := List Char
  tomlFromStr := read
  keys _ := ["version", "id", "base", "template", "output_hash"]
  tryInto outputHash := .ok ⟨1, regionUuid, selection, outputHash⟩
  tomlToString := print
  blake3 payload := if payload = payloadOf fenceMarker then fenceHash else emptyHash

theorem readsBack : ReadsBack sampleCrates := by
  have printed : ∀ {descriptor : GeneratedRegionDescriptor} {header : List Char},
      print descriptor = .ok header → header = headerStart ++ descriptor.outputHash ++ headerEnd
        ∧ descriptor = ⟨1, regionUuid, selection, descriptor.outputHash⟩ := by
    intro descriptor header success
    unfold print at success
    split at success
    · split at success
      · rename_i known
        obtain ⟨rfl, rfl, rfl, rfl, _⟩ := known
        exact ⟨(Except.ok.inj success).symm, rfl⟩
      · exact nomatch success
    · exact nomatch success
  constructor
  · intro descriptor header success
    obtain ⟨rfl, _⟩ := printed success
    exact ⟨headerStart ++ descriptor.outputHash ++ ['"'], by simp [headerEnd]⟩
  · intro descriptor header success
    obtain ⟨rfl, isDescriptor⟩ := printed success
    have known : ["version", "id", "base", "template", "output_hash"].all
        (descriptorKeys.contains ·) = true := by decide
    refine ⟨descriptor.outputHash, ?_, known, congrArg Except.ok isDescriptor.symm⟩
    show read ('\n' :: (headerStart ++ descriptor.outputHash ++ headerEnd)) = _
    have begins : ('\n' :: headerStart).isPrefixOf
        ('\n' :: (headerStart ++ descriptor.outputHash ++ headerEnd)) = true := by
      rw [List.isPrefixOf_iff_prefix, append_assoc]
      exact ⟨descriptor.outputHash ++ headerEnd, rfl⟩
    have rest : ('\n' :: (headerStart ++ descriptor.outputHash ++ headerEnd)).drop
        ('\n' :: headerStart).length = descriptor.outputHash ++ headerEnd := by
      rw [append_assoc]
      exact drop_left
    have cut : (descriptor.outputHash ++ headerEnd).dropLast.dropLast = descriptor.outputHash := by
      simp [headerEnd]
    rw [read, if_pos begins, rest, cut]
    rfl

theorem opens_iff (state : State) (content : List Char) : (machine.step state content).2 = .opens
      ↔ (state = .top ∨ state = .paragraph) ∧ commentStart <+: content := by
  rw [← isPrefixOf_iff_prefix]
  cases state with
  | comment | fence => simp [step, kindOf]
  | top | paragraph =>
    by_cases empty : content = []
    · subst empty
      simp [step, kindOf, commentStart]
    · by_cases isComment : commentStart.isPrefixOf content = true
      · simp [step, kindOf, empty, isComment]
      · by_cases isFence : fenceMarker.isPrefixOf content = true
        · simp [step, kindOf, empty, isComment, isFence]
        · simp [step, kindOf, empty, isComment, isFence]

theorem next_of_opens {state : State} {content : List Char}
    (opens : (machine.step state content).2 = .opens) :
    (machine.step state content).1 = afterComment content := by
  have ⟨isOutside, begins⟩ := (opens_iff state content).1 opens
  have isComment := isPrefixOf_iff_prefix.2 begins
  have some : content.isEmpty = false := by
    obtain ⟨rest, rfl⟩ := begins
    rfl
  rcases isOutside with rfl | rfl <;> simp [step, isComment, some]

theorem afterComment_spec (content : List Char) :
    (terminator <:+: content → afterComment content = .top)
      ∧ (¬terminator <:+: content → afterComment content = .comment) := by
  have noneIff := @splitOnce_eq_none_iff Char _ terminator content (by decide)
  unfold afterComment
  cases split : splitOnce terminator content with
  | none =>
    rw [split] at noneIff
    exact ⟨fun occurs => absurd occurs (noneIff.1 rfl), fun _ => rfl⟩
  | some parts =>
    refine ⟨fun _ => rfl, fun absent => ?_⟩
    rw [noneIff.2 absent] at split
    exact nomatch split

def sampleCommonMark : CommonMark sampleCrates where
  machine := machine
  top := .top
  comment := .comment
  reads := blocks_events rfl
  opens_html := by
    intro state content opens
    obtain ⟨rest, rfl⟩ := ((opens_iff state content).1 opens).2
    exact ⟨[], ['!', '-', '-'] ++ rest, nofun, rfl⟩
  opens_comment := by
    intro state spaces text indented begins opens
    have unindented : spaces = [] := by
      cases spaces with
      | nil => rfl
      | cons space spaces =>
        have ⟨rest, same⟩ := ((opens_iff state _).1 opens).2
        have isSpace := indented space mem_cons_self
        rw [(List.cons.inj same).1.symm] at isSpace
        exact absurd isSpace (by decide)
    subst unindented
    rw [next_of_opens opens]
    exact afterComment_spec text
  in_comment := by
    intro content
    have ⟨ended, still⟩ := afterComment_spec content
    exact ⟨fun occurs => Prod.ext (ended occurs) rfl, fun absent => Prod.ext (still absent) rfl⟩
  blank := rfl
  top_ends := by
    intro content continues
    have notTop := (step_spec .top content).2.1
    cases move : (step .top content).2 with
    | continues => exact (notTop move).elim nofun nofun
    | opens tag =>
      change kindOf .top (step .top content).2 = .continues at continues
      rw [move] at continues
      cases tag <;> exact nomatch continues
    | outside =>
      change kindOf .top (step .top content).2 = .continues at continues
      rw [move] at continues
      exact nomatch continues
  by_marker := by
    intro state text other _ begins opens
    exact (opens_iff state other).2 ⟨((opens_iff state text).1 opens).1, begins⟩

def header (hash : { digits : List (Fin 16) // digits.length = 64 }) : List Char :=
  headerStart ++ (fingerprintStart ++ hash.val.map hexChar) ++ headerEnd

def text : List Char :=
  openMarker ++ '\n' :: header emptyHash ++ terminator ++ ['\n', '\n', '\n', '\n'] ++ closeMarker

def shown (result : Except RegionError (List GeneratedRegion)) :
    Except RegionError (List (Span × String)) :=
  result.map fun regions => regions.map fun region => (region.span, region.descriptor.id)

theorem exists_of_shown {result : Except RegionError (List GeneratedRegion)} {span : Span}
    {id : String} (isShown : shown result = .ok [(span, id)]) :
    ∃ region, result = .ok [region] ∧ region.span = span ∧ region.descriptor.id = id := by
  obtain ⟨regions, rfl, same⟩ := Fallible.of_map_ok isShown
  obtain ⟨region, others, rfl, isFirst, isRest⟩ := map_eq_cons_iff.1 same
  obtain rfl := map_eq_nil_iff.1 isRest
  exact ⟨region, rfl, (Prod.mk.inj isFirst).1, (Prod.mk.inj isFirst).2⟩

theorem shown_text : shown (parseRegions sampleCrates text) = .ok [(⟨0, 228⟩, regionUuid)] := by
  decide +kernel

theorem error_of_shown {result : Except RegionError (List GeneratedRegion)} {failure : RegionError}
    (isShown : shown result = .error failure) : result = .error failure := by
  cases result with
  | error other => exact congrArg Except.error (Except.error.inj isShown)
  | ok regions => exact nomatch isShown

theorem replaceRegion_congr {region : GeneratedRegion} {span : Span} {id : String}
    (isSpan : region.span = span) (isId : region.descriptor.id = id) (output : List Char) :
    replaceRegion sampleCrates text region selection output
      = (formatRegion sampleCrates id selection output).map fun replacement =>
        text.take span.start ++ replacement ++ text.drop span.stop := by
  rw [← isSpan, ← isId, replaceRegion]
  cases formatRegion sampleCrates region.descriptor.id selection output <;> rfl

end RegionSample

open RegionSample

/-- A region whose output is empty is replaced and inserted. -/
theorem region_edits_of_empty :
    ∃ region replaced inserted, parseRegions sampleCrates text = .ok [region]
      ∧ replaceRegion sampleCrates text region selection [] = .ok replaced
      ∧ Replaced sampleCrates text [] region [] selection replaced
      ∧ insertRegion sampleCrates [] 0 regionUuid selection [] = .ok inserted
      ∧ Inserted sampleCrates [] 0 [] regionUuid selection inserted := by
  have edits := @region_edits_iff sampleCrates sampleCommonMark readsBack
  have settles : Settles sampleCrates [] := by
    unfold Settles Stands
    decide
  have ⟨region, parsed, isSpan, isId⟩ :=
    exists_of_shown shown_text
  have replaced : replaceRegion sampleCrates text region selection [] = .ok text := by
    rw [replaceRegion_congr isSpan isId]
    decide +kernel
  have inserted : insertRegion sampleCrates [] 0 regionUuid selection []
      = .ok (text ++ ['\n', '\n']) := by
    decide +kernel
  have none : parseRegions sampleCrates [] = .ok [] := rfl
  refine ⟨region, text, text ++ ['\n', '\n'], parsed, replaced, ?_, inserted, ?_⟩
  · exact (edits.1 text [] text [] [] region selection parsed replaced).2 settles
  · refine (edits.2 [] [] (text ++ ['\n', '\n']) 0 [] regionUuid selection none not_mem_nil
      inserted).2 ⟨settles, ?_, [], [], rfl, rfl, rfl⟩
    unfold Stands
    decide

/-- A region whose output opens a fence has no end marker, and one after an open fence is not
read. -/
theorem open_fence_hides_end_marker :
    ∃ region replaced inserted, parseRegions sampleCrates text = .ok [region]
      ∧ replaceRegion sampleCrates text region selection fenceMarker = .ok replaced
      ∧ parseRegions sampleCrates replaced = .error ⟨"missing end marker"⟩
      ∧ insertRegion sampleCrates (fenceMarker ++ ['\n']) 4 regionUuid selection [] = .ok inserted
      ∧ parseRegions sampleCrates inserted = .ok [] := by
  have ⟨region, parsed, isSpan, isId⟩ :=
    exists_of_shown shown_text
  refine ⟨region, openMarker ++ '\n' :: header fenceHash ++ terminator ++ payloadOf fenceMarker
    ++ closeMarker, fenceMarker ++ ['\n', '\n', '\n'] ++ text ++ ['\n', '\n'], parsed, ?_,
    error_of_shown (by decide +kernel), by decide +kernel, ?_⟩
  · rw [replaceRegion_congr isSpan isId]
    decide +kernel
  · have isShown : shown (parseRegions sampleCrates
        (fenceMarker ++ ['\n', '\n', '\n'] ++ text ++ ['\n', '\n'])) = .ok [] := by decide
    have ⟨regions, same, isNil⟩ := Fallible.of_map_ok isShown
    rw [same, map_eq_nil_iff.1 isNil]

end Clepsydra.Bases.Generated
