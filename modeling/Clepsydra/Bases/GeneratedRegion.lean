import Clepsydra.Library.Fallible
import Clepsydra.Library.LineScan
import Clepsydra.Library.Substring
import Clepsydra.Bases.Prepared

/-!
Owns: generated regions of a Markdown text, and the texts in which one is replaced or inserted.

Proves: which regions are read off the blocks that are directives.

Does not own: the Markdown parser, the TOML crate and BLAKE3. Positions count characters.
-/

namespace Clepsydra.Bases.Generated

open Library Library.LineScan List
open Vault (Uuid isWhitespace hexChar hexDigit)

/-! ### Markers -/

def openMarker : List Char := "<!-- clep:generated".toList

def closeMarker : List Char := "<!-- /clep:generated -->".toList

def closeStart : List Char := "<!-- /clep:generated".toList

def terminator : List Char := ['-', '-', '>']

/-! ### Regions -/

structure RenderSelection where
  base : String
  view : Option String
  filter : Option Filter
  sort : Option (List SortKey)
  limit : Option UInt32
  template : String

structure GeneratedRegionDescriptor where
  version : UInt32
  id : String
  selection : RenderSelection
  outputHash : List Char

structure Span where
  start : Nat
  stop : Nat
deriving DecidableEq

def slice (markdown : List Char) (span : Span) : List Char :=
  (markdown.take span.stop).drop span.start

structure GeneratedRegion where
  descriptor : GeneratedRegionDescriptor
  span : Span
  payload : Span
  modified : Bool

structure RegionError where
  message : String
deriving DecidableEq

def ensure (condition : Bool) (message : String) : Except RegionError Unit :=
  if condition then .ok () else .error ⟨message⟩

/-! ### Crates -/

inductive Tag where
  | htmlBlock
  | other
deriving DecidableEq

inductive Event where
  | start (tag : Tag)
  | stop (tag : Tag)
  | other

/-- The Markdown parser, the TOML reader and writer of descriptors, and BLAKE3. -/
structure Crates where
  events : List Char → List (Event × Span)
  Table : Type
  tomlFromStr : List Char → Except String Table
  keys : Table → List String
  tryInto : Table → Except String GeneratedRegionDescriptor
  tomlToString : GeneratedRegionDescriptor → Except String (List Char)
  blake3 : List Char → { digits : List (Fin 16) // digits.length = 64 }

variable (crates : Crates)

/-! ### Blocks -/

structure HtmlState where
  depth : Nat
  start : Option Nat
  blocks : List Span

def htmlStep (state : HtmlState) : Event × Span → HtmlState
  | (.start tag, range) =>
    { state with
      start := if state.depth = 0 ∧ tag = .htmlBlock then some range.start else state.start
      depth := state.depth + 1 }
  | (.stop tag, range) =>
    let depth := state.depth - 1
    if depth = 0 ∧ tag = .htmlBlock then
      match state.start with
      | some start => ⟨depth, none, state.blocks ++ [⟨start, range.stop⟩]⟩
      | none => { state with depth }
    else { state with depth }
  | (.other, _) => state

def htmlBlocks (markdown : List Char) : List Span :=
  ((crates.events markdown).foldl htmlStep ⟨0, none, []⟩).blocks

def trim (text : List Char) : List Char :=
  ((text.dropWhile isWhitespace).reverse.dropWhile isWhitespace).reverse

structure Block where
  start : Nat
  text : List Char
deriving DecidableEq

def Block.at (start : Nat) (text : List Char) : Block :=
  ⟨start + (text.takeWhile isWhitespace).length, trim text⟩

def blocks (markdown : List Char) : List Block :=
  (htmlBlocks crates markdown).map fun range => .at range.start (slice markdown range)

def standaloneComment (block : List Char) : Bool :=
  match splitOnce terminator block with
  | some (_, after) => (trim after).isEmpty
  | none => true

/-! ### Reading -/

def fingerprintStart : List Char := "blake3:".toList

def fingerprint (payload : List Char) : List Char :=
  fingerprintStart ++ (crates.blake3 payload).val.map hexChar

def descriptorKeys : List String :=
  ["version", "id", "base", "view", "template", "filter", "sort", "limit", "output_hash"]

def findHeader (trimmed : List Char) : Except RegionError (List Char) :=
  match splitOnce terminator trimmed with
  | some (header, _) => .ok header
  | none => .error ⟨"unterminated header"⟩

def startsOnNewLine (content : List Char) : Bool :=
  "\n".toList.isPrefixOf content || "\r\n".toList.isPrefixOf content

def invalidHeader (error : String) : RegionError := ⟨"invalid header: " ++ error⟩

def parseId (id : String) : Except RegionError Uuid :=
  match Uuid.parse id with
  | some id => .ok id
  | none => .error ⟨"invalid UUID"⟩

def stripFingerprint (outputHash : List Char) : Except RegionError (List Char) :=
  if fingerprintStart.isPrefixOf outputHash then .ok (outputHash.drop fingerprintStart.length)
  else .error ⟨"unsupported output fingerprint"⟩

def isLowerHex (character : Char) : Bool := (hexDigit character).isSome && !character.isUpper

def readHeader (ids : List Uuid) (trimmed : List Char) :
    Except RegionError (GeneratedRegionDescriptor × Uuid × Nat) := do
  let header ← findHeader trimmed
  let content := header.drop openMarker.length
  ensure (startsOnNewLine content) "header configuration must start on a new line"
  let config ← (crates.tomlFromStr content).mapError invalidHeader
  ensure ((crates.keys config).all (descriptorKeys.contains ·)) "unknown descriptor field"
  let descriptor ← (crates.tryInto config).mapError invalidHeader
  ensure (descriptor.version == 1) "unsupported version"
  let id ← parseId descriptor.id
  ensure (decide (id ∉ ids)) "duplicate region UUID"
  let hash ← stripFingerprint descriptor.outputHash
  ensure (hash.length == 64 && hash.all isLowerHex) "invalid output fingerprint"
  return (descriptor, id, header.length + terminator.length)

structure Pending where
  descriptor : GeneratedRegionDescriptor
  start : Nat
  payloadStart : Nat

structure ReadState where
  regions : List GeneratedRegion
  pending : Option Pending
  ids : List Uuid

def Pending.close (pending : Pending) (markdown : List Char) (stop : Nat) : GeneratedRegion where
  descriptor := pending.descriptor
  span := ⟨pending.start, stop + closeMarker.length⟩
  payload := ⟨pending.payloadStart, stop⟩
  modified := decide
    (pending.descriptor.outputHash ≠ fingerprint crates (slice markdown ⟨pending.payloadStart, stop⟩))

def readClose (markdown : List Char) (state : ReadState) (stop : Nat) : Except RegionError ReadState :=
  match state.pending with
  | none => .error ⟨"end marker without a header"⟩
  | some pending =>
    .ok { state with
      regions := state.regions ++ [pending.close crates markdown stop], pending := none }

def readBlock (markdown : List Char) (state : ReadState) (block : Block) :
    Except RegionError ReadState :=
  if !standaloneComment block.text then .ok state
  else if openMarker.isPrefixOf block.text then do
    ensure state.pending.isNone "nested regions are not supported"
    let (descriptor, id, stop) ← readHeader crates state.ids block.text
    return { state with
      pending := some ⟨descriptor, block.start, block.start + stop⟩, ids := id :: state.ids }
  else if closeStart.isPrefixOf block.text then do
    ensure (block.text == closeMarker) "invalid end marker"
    readClose crates markdown state block.start
  else .ok state

def finish (state : ReadState) : Except RegionError (List GeneratedRegion) :=
  if state.pending.isSome then .error ⟨"missing end marker"⟩ else .ok state.regions

def parseRegions (markdown : List Char) : Except RegionError (List GeneratedRegion) :=
  (blocks crates markdown).foldlM (readBlock crates markdown) ⟨[], none, []⟩ >>= finish

/-! ### Writing -/

def isDirective (block : Block) : Bool := standaloneComment block.text
    && (openMarker.isPrefixOf block.text || closeStart.isPrefixOf block.text)

def ensureInertOutput (markdown : List Char) : Except RegionError Unit :=
  ensure (!(blocks crates markdown).any isDirective)
    "template output cannot contain generated directives"

/-- `replace("\r\n", "\n")`. -/
def replaceBreaks : List Char → List Char
  | '\r' :: '\n' :: rest => '\n' :: replaceBreaks rest
  | character :: rest => character :: replaceBreaks rest
  | [] => []

/-- `trim_matches('\n')`. -/
def trimFeeds (text : List Char) : List Char :=
  ((text.dropWhile (· == '\n')).reverse.dropWhile (· == '\n')).reverse

def payloadOf (markdown : List Char) : List Char :=
  ['\n', '\n'] ++ trimFeeds (replaceBreaks markdown) ++ ['\n', '\n']

def formatRegion (id : String) (selection : RenderSelection) (markdown : List Char) :
    Except RegionError (List Char) := do
  ensureInertOutput crates markdown
  let _ ← parseId id
  let payload := payloadOf markdown
  let descriptor := ⟨1, id, selection, fingerprint crates payload⟩
  let header ← (crates.tomlToString descriptor).mapError RegionError.mk
  ensure (splitOnce terminator header).isNone "configuration contains an HTML comment terminator"
  return openMarker ++ '\n' :: header ++ terminator ++ payload ++ closeMarker

def replaceRegion (markdown : List Char) (region : GeneratedRegion) (selection : RenderSelection)
    (output : List Char) : Except RegionError (List Char) := do
  let replacement ← formatRegion crates region.descriptor.id selection output
  return markdown.take region.span.start ++ replacement ++ markdown.drop region.span.stop

def splitsBlock (offset : Nat) : Nat → List (Event × Span) → Bool
  | _, [] => false
  | depth, (.start _, range) :: rest =>
    (depth == 0 && decide (range.start < offset) && decide (offset < range.stop))
      || splitsBlock offset (depth + 1) rest
  | depth, (.stop _, _) :: rest => splitsBlock offset (depth - 1) rest
  | depth, (.other, _) :: rest => splitsBlock offset depth rest

def separatorBefore (before : List Char) : List Char :=
  if !before.isEmpty && !(['\n', '\n'].isSuffixOf before) then ['\n', '\n'] else []

def separatorAfter (after : List Char) : List Char :=
  if !(['\n', '\n'].isPrefixOf after) then ['\n', '\n'] else []

def insertRegion (markdown : List Char) (offset : Nat) (id : String) (selection : RenderSelection)
    (output : List Char) : Except RegionError (List Char) := do
  ensure (offset ≤ markdown.length) "insertion offset is not a UTF-8 boundary"
  let regions ← parseRegions crates markdown
  ensure (!regions.any fun region => region.span.start < offset && offset < region.span.stop)
    "cannot insert inside a generated region"
  ensure (!splitsBlock offset 0 (crates.events markdown))
    "insertion must be between Markdown blocks"
  let region ← formatRegion crates id selection output
  let before := markdown.take offset
  let after := markdown.drop offset
  return before ++ separatorBefore before ++ region ++ separatorAfter after ++ after

/-! ### Checks -/

variable {crates}

@[simp] theorem ensure_ok_iff {condition : Bool} {message : String} {result : Unit} :
    ensure condition message = .ok result ↔ condition = true := by
  unfold ensure
  cases condition <;> simp

variable {trimmed : List Char} {descriptor : GeneratedRegionDescriptor} {id : Uuid} {stop : Nat}

theorem readHeader_ok_iff {ids : List Uuid} :
    readHeader crates ids trimmed = .ok (descriptor, id, stop)
      ↔ ∃ header config hash, findHeader trimmed = .ok header
        ∧ startsOnNewLine (header.drop openMarker.length) = true
        ∧ crates.tomlFromStr (header.drop openMarker.length) = .ok config
        ∧ (crates.keys config).all (descriptorKeys.contains ·) = true
        ∧ crates.tryInto config = .ok descriptor ∧ (descriptor.version == 1) = true
        ∧ parseId descriptor.id = .ok id ∧ id ∉ ids
        ∧ stripFingerprint descriptor.outputHash = .ok hash
        ∧ (hash.length == 64 && hash.all isLowerHex) = true
        ∧ header.length + terminator.length = stop := by
  unfold readHeader
  simp only [Fallible.bind_ok_iff, Fallible.mapError_ok_iff, ensure_ok_iff,
    decide_eq_true_eq]
  constructor
  · rintro ⟨header, found, _, newLine, config, parsed, _, known, descriptor', decoded, _, version,
      id', isId, _, isNew, hash, isHash, _, isHex, same⟩
    cases same
    exact ⟨header, config, hash, found, newLine, parsed, known, decoded, version, isId, isNew,
      isHash, isHex, rfl⟩
  · rintro ⟨header, config, hash, found, newLine, parsed, known, decoded, version, isId, isNew,
      isHash, isHex, rfl⟩
    exact ⟨header, found, (), newLine, config, parsed, (), known, descriptor, decoded, (), version,
      id, isId, (), isNew, hash, isHash, (), isHex, rfl⟩

theorem readHeader_eq_ok_iff_nil {ids : List Uuid} :
    readHeader crates ids trimmed = .ok (descriptor, id, stop)
      ↔ readHeader crates [] trimmed = .ok (descriptor, id, stop) ∧ id ∉ ids := by
  rw [readHeader_ok_iff, readHeader_ok_iff]
  constructor
  · rintro ⟨header, config, hash, found, newLine, parsed, known, decoded, version, isId, isNew, rest⟩
    exact ⟨⟨header, config, hash, found, newLine, parsed, known, decoded, version, isId,
      not_mem_nil, rest⟩, isNew⟩
  · rintro ⟨⟨header, config, hash, found, newLine, parsed, known, decoded, version, isId, _, rest⟩,
      isNew⟩
    exact ⟨header, config, hash, found, newLine, parsed, known, decoded, version, isId, isNew, rest⟩

theorem parseId_ok_iff {id : String} {parsed : Uuid} :
    parseId id = .ok parsed ↔ Uuid.parse id = some parsed := by
  unfold parseId
  cases Uuid.parse id <;> simp

/-! ### Regions of a text -/

def regionId (region : GeneratedRegion) : Option Uuid := Uuid.parse region.descriptor.id

inductive Marks (crates : Crates) (markdown : List Char) : List Block → List GeneratedRegion → Prop
  | nil : Marks crates markdown [] []
  | region {opening closing : Block} {descriptor : GeneratedRegionDescriptor} {id : Uuid}
      {stop : Nat} {blocks : List Block} {regions : List GeneratedRegion}
      (isOpening : openMarker <+: opening.text)
      (header : readHeader crates [] opening.text = .ok (descriptor, id, stop))
      (isClosing : closing.text = closeMarker)
      (rest : Marks crates markdown blocks regions) :
      Marks crates markdown (opening :: closing :: blocks)
        (Pending.close crates ⟨descriptor, opening.start, opening.start + stop⟩ markdown
          closing.start :: regions)

theorem regionId_close {markdown : List Char}
    (header : readHeader crates [] trimmed = .ok (descriptor, id, stop))
    (start payloadStart finish : Nat) :
    regionId (Pending.close crates ⟨descriptor, start, payloadStart⟩ markdown finish) = some id := by
  have ⟨_, _, _, _, _, _, _, _, _, isId, _⟩ := readHeader_ok_iff.1 header
  exact parseId_ok_iff.1 isId

variable {markdown : List Char}

theorem readBlock_of_not_directive {block : Block} (other : isDirective block = false)
    (state : ReadState) : readBlock crates markdown state block = .ok state := by
  rw [isDirective, Bool.and_eq_false_iff, Bool.or_eq_false_iff] at other
  unfold readBlock
  rcases other with notComment | ⟨notOpening, notClosing⟩
  · rw [notComment]
    rfl
  · rw [notOpening, notClosing]
    cases standaloneComment block.text <;> rfl

theorem readBlock_none_ok_iff {block : Block} (directive : isDirective block = true)
    {regions : List GeneratedRegion} {ids : List Uuid} {after : ReadState} :
    readBlock crates markdown ⟨regions, none, ids⟩ block = .ok after
      ↔ openMarker <+: block.text ∧ ∃ descriptor id stop,
        readHeader crates [] block.text = .ok (descriptor, id, stop) ∧ id ∉ ids
        ∧ (⟨regions, some ⟨descriptor, block.start, block.start + stop⟩, id :: ids⟩ : ReadState)
          = after := by
  rw [isDirective, Bool.and_eq_true, Bool.or_eq_true] at directive
  rw [← isPrefixOf_iff_prefix]
  unfold readBlock
  rw [directive.1]
  by_cases isOpening : openMarker.isPrefixOf block.text = true
  · simp only [isOpening, Bool.not_true, Bool.false_eq_true, if_false, if_true, true_and,
      Option.isNone_none, Fallible.bind_ok_iff, ensure_ok_iff]
    constructor
    · rintro ⟨_, ⟨descriptor, id, stop⟩, header, same⟩
      have ⟨isHeader, isNew⟩ := readHeader_eq_ok_iff_nil.1 header
      exact ⟨descriptor, id, stop, isHeader, isNew, Except.ok.inj same⟩
    · rintro ⟨descriptor, id, stop, isHeader, isNew, rfl⟩
      exact ⟨(), (descriptor, id, stop), readHeader_eq_ok_iff_nil.2 ⟨isHeader, isNew⟩,
        rfl⟩
  · have isClosing := directive.2.resolve_left isOpening
    simp only [isOpening, isClosing, Bool.not_true, Bool.false_eq_true, if_false, if_true,
      false_and, iff_false, Fallible.bind_ok_iff, readClose]
    rintro ⟨_, _, impossible⟩
    exact nomatch impossible

theorem not_prefix_closeMarker : ¬openMarker <+: closeMarker := by decide

theorem readBlock_some_ok_iff {block : Block} (directive : isDirective block = true)
    {regions : List GeneratedRegion} {pending : Pending} {ids : List Uuid} {after : ReadState} :
    readBlock crates markdown ⟨regions, some pending, ids⟩ block = .ok after
      ↔ block.text = closeMarker
        ∧ (⟨regions ++ [pending.close crates markdown block.start], none, ids⟩ : ReadState)
          = after := by
  rw [isDirective, Bool.and_eq_true, Bool.or_eq_true] at directive
  unfold readBlock
  rw [directive.1]
  by_cases isOpening : openMarker.isPrefixOf block.text = true
  · have notClosing : block.text ≠ closeMarker := fun same =>
      not_prefix_closeMarker (same ▸ isPrefixOf_iff_prefix.1 isOpening)
    simp [isOpening, notClosing, Fallible.bind_ok_iff]
  · have isClosing := directive.2.resolve_left isOpening
    simp only [isOpening, isClosing, Bool.not_true, Bool.false_eq_true, if_false, if_true,
      Fallible.bind_ok_iff, ensure_ok_iff, beq_iff_eq, readClose]
    constructor
    · rintro ⟨_, same, read⟩
      exact ⟨same, Except.ok.inj read⟩
    · rintro ⟨same, rfl⟩
      exact ⟨(), same, rfl⟩

theorem foldlM_readBlock_filter (all : List Block) : ∀ state : ReadState,
    all.foldlM (readBlock crates markdown) state
      = (all.filter isDirective).foldlM (readBlock crates markdown) state := by
  induction all with
  | nil => exact fun _ => rfl
  | cons block all ih =>
    intro state
    cases directive : isDirective block with
    | false =>
      rw [filter_cons_of_neg (by rw [directive]; exact Bool.false_ne_true),
        foldlM_cons, readBlock_of_not_directive directive]
      exact ih state
    | true =>
      rw [filter_cons_of_pos directive, foldlM_cons, foldlM_cons]
      exact congrArg _ (funext ih)

theorem foldlM_readBlock_iff : ∀ (found : List Block) (regions all : List GeneratedRegion)
    (ids : List Uuid), (∀ block ∈ found, isDirective block = true) →
    ((∃ after, found.foldlM (readBlock crates markdown) ⟨regions, none, ids⟩
        = .ok ⟨all, none, after⟩)
      ↔ ∃ others, all = regions ++ others ∧ Marks crates markdown found others
        ∧ (others.map regionId).Nodup ∧ ∀ id ∈ ids, some id ∉ others.map regionId)
  | [], regions, all, ids, _ => by
    constructor
    · rintro ⟨after, same⟩
      cases same
      exact ⟨[], (append_nil _).symm, .nil, nodup_nil, fun _ _ => not_mem_nil⟩
    · rintro ⟨others, rfl, marks, _⟩
      cases marks
      rw [append_nil]
      exact ⟨ids, rfl⟩
  | [opening], regions, all, ids, directives => by
    constructor
    · rintro ⟨after, read⟩
      rw [foldlM_cons] at read
      obtain ⟨state, first, rest⟩ := Fallible.of_bind_ok read
      obtain ⟨_, _, _, _, _, _, rfl⟩ := (readBlock_none_ok_iff (directives _ (.head _))).1 first
      cases rest
    · rintro ⟨others, _, marks, _⟩
      cases marks
  | opening :: closing :: found, regions, all, ids, directives => by
    rw [forall_mem_cons, forall_mem_cons] at directives
    have isHeader := @readBlock_none_ok_iff crates markdown opening directives.1
    have isEnd := @readBlock_some_ok_iff crates markdown closing directives.2.1
    have later := foldlM_readBlock_iff found
    constructor
    · rintro ⟨after, read⟩
      rw [foldlM_cons] at read
      obtain ⟨first, readFirst, read⟩ := Fallible.of_bind_ok read
      obtain ⟨isOpening, descriptor, id, stop, header, isNew, rfl⟩ := isHeader.1 readFirst
      rw [foldlM_cons] at read
      obtain ⟨second, readSecond, read⟩ := Fallible.of_bind_ok read
      obtain ⟨isClosing, rfl⟩ := isEnd.1 readSecond
      obtain ⟨others, rfl, marks, nodup, fresh⟩ := (later _ all _ directives.2.2).1 ⟨after, read⟩
      rw [forall_mem_cons] at fresh
      refine ⟨_ :: others, append_assoc _ _ _, .region isOpening header isClosing marks, ?_, ?_⟩
      · rw [map_cons, regionId_close header]
        exact nodup_cons.2 ⟨fresh.1, nodup⟩
      · intro known member
        rw [map_cons, regionId_close header, mem_cons, not_or]
        refine ⟨fun same => isNew ?_, fresh.2 known member⟩
        exact Option.some.inj same ▸ member
    · rintro ⟨others, rfl, marks, nodup, fresh⟩
      cases marks with
      | region isOpening header isClosing marks =>
        rename_i descriptor id stop others
        rw [map_cons, regionId_close header] at nodup fresh
        rw [nodup_cons] at nodup
        have isNew : id ∉ ids := fun member => fresh id member mem_cons_self
        have others' : ∀ known ∈ id :: ids, some known ∉ others.map regionId := forall_mem_cons.2
            ⟨nodup.1, fun known member among => fresh known member (mem_cons_of_mem _ among)⟩
        obtain ⟨after, read⟩ := (later (regions ++ [_]) _ (id :: ids) directives.2.2).2
          ⟨others, rfl, marks, nodup.2, others'⟩
        refine ⟨after, ?_⟩
        rw [foldlM_cons, Fallible.bind_of_eq_ok
          (isHeader.2 ⟨isOpening, descriptor, id, stop, header, isNew, rfl⟩), foldlM_cons,
          Fallible.bind_of_eq_ok (isEnd.2 ⟨isClosing, rfl⟩)]
        rw [append_assoc] at read
        exact read

def directives (crates : Crates) (markdown : List Char) : List Block :=
  (blocks crates markdown).filter isDirective

theorem parseRegions_ok_iff {regions : List GeneratedRegion} :
    parseRegions crates markdown = .ok regions
      ↔ Marks crates markdown (directives crates markdown) regions
        ∧ (regions.map regionId).Nodup := by
  have read := @foldlM_readBlock_iff crates markdown (directives crates markdown) [] regions []
    fun block member => (mem_filter.1 member).2
  rw [parseRegions, foldlM_readBlock_filter, Fallible.bind_ok_iff]
  constructor
  · rintro ⟨⟨found, pending, ids⟩, folded, finished⟩
    cases pending with
    | some pending => exact nomatch finished
    | none =>
      obtain rfl : found = regions := Except.ok.inj finished
      have ⟨others, same, marks, nodup, _⟩ := read.1 ⟨ids, folded⟩
      rw [nil_append] at same
      exact same ▸ ⟨marks, nodup⟩
  · rintro ⟨marks, nodup⟩
    have ⟨ids, folded⟩ := read.2 ⟨regions, rfl, marks, nodup, nofun⟩
    exact ⟨_, folded, rfl⟩

theorem Marks.append {first second : List Block} {earlier later : List GeneratedRegion}
    (marksFirst : Marks crates markdown first earlier)
    (marksSecond : Marks crates markdown second later) :
    Marks crates markdown (first ++ second) (earlier ++ later) := by
  induction marksFirst with
  | nil => exact marksSecond
  | region isOpening header isClosing _ ih =>
    exact .region isOpening header isClosing ih

variable {found : List Block}

theorem Marks.exists_append {earlier later : List GeneratedRegion}
    (marks : Marks crates markdown found (earlier ++ later)) :
    ∃ first second, found = first ++ second ∧ Marks crates markdown first earlier
      ∧ Marks crates markdown second later := by
  induction earlier generalizing found with
  | nil => exact ⟨[], found, rfl, .nil, marks⟩
  | cons region earlier ih =>
    cases marks with
    | region isOpening header isClosing rest =>
      obtain ⟨first, second, rfl, marksFirst, marksSecond⟩ := ih rest
      exact ⟨_ :: _ :: first, second, rfl, .region isOpening header isClosing marksFirst,
        marksSecond⟩

/-! ### Regions of parts -/

variable {text : List Char}

def Span.shift (amount : Nat) (span : Span) : Span := ⟨amount + span.start, amount + span.stop⟩

def Block.shift (amount : Nat) (block : Block) : Block := ⟨amount + block.start, block.text⟩

def GeneratedRegion.shift (amount : Nat) (region : GeneratedRegion) : GeneratedRegion :=
  { region with span := region.span.shift amount, payload := region.payload.shift amount }

@[simp] theorem regionId_shift (amount : Nat) (region : GeneratedRegion) :
    regionId (region.shift amount) = regionId region := rfl

theorem map_regionId_shift (amount : Nat) (regions : List GeneratedRegion) :
    (regions.map (·.shift amount)).map regionId = regions.map regionId :=
  map_map.trans (map_congr_left fun region _ => regionId_shift amount region)

theorem GeneratedRegion.shift_injective (amount : Nat) :
    Function.Injective (GeneratedRegion.shift amount) := by
  rintro ⟨descriptor, ⟨start, stop⟩, ⟨payloadStart, payloadStop⟩, modified⟩
    ⟨descriptor', ⟨start', stop'⟩, ⟨payloadStart', payloadStop'⟩, modified'⟩ same
  simpa [GeneratedRegion.shift, Span.shift] using same

theorem GeneratedRegion.shift_shift (first second : Nat) (region : GeneratedRegion) :
    (region.shift first).shift second = region.shift (second + first) := by
  simp only [GeneratedRegion.shift, Span.shift, Nat.add_assoc]

theorem slice_append {span : Span} (within : span.stop ≤ text.length) (other : List Char) :
    slice (text ++ other) span = slice text span := by
  rw [slice, slice, take_append_of_le_length within]

theorem slice_append_shift (other text : List Char) (span : Span) :
    slice (other ++ text) (span.shift other.length) = slice text span := by
  rw [slice, slice, Span.shift, take_length_add_append, drop_length_add_append]

theorem slice_middle (before middle after : List Char) :
    slice (before ++ (middle ++ after)) ⟨before.length, before.length + middle.length⟩ = middle := by
  rw [slice, take_length_add_append, drop_left, take_left]

theorem Pending.close_append (within : stop ≤ text.length) (pending : Pending) (other : List Char) :
    pending.close crates (text ++ other) stop = pending.close crates text stop := by
  rw [Pending.close, Pending.close, slice_append within]

theorem marks_append_iff {regions : List GeneratedRegion}
    (within : ∀ block ∈ found, block.start ≤ text.length) (other : List Char) :
    Marks crates (text ++ other) found regions ↔ Marks crates text found regions := by
  constructor
  · intro marks
    induction marks with
    | nil => exact .nil
    | region isOpening header isClosing _ ih =>
      rw [forall_mem_cons, forall_mem_cons] at within
      rw [Pending.close_append within.2.1]
      exact .region isOpening header isClosing (ih within.2.2)
  · intro marks
    induction marks with
    | nil => exact .nil
    | region isOpening header isClosing _ ih =>
      rw [forall_mem_cons, forall_mem_cons] at within
      rw [← Pending.close_append within.2.1 _ other]
      exact .region isOpening header isClosing (ih within.2.2)

theorem Pending.close_shift (other text : List Char) (descriptor : GeneratedRegionDescriptor)
    (start payloadStart stop : Nat) :
    Pending.close crates ⟨descriptor, other.length + start, other.length + payloadStart⟩
        (other ++ text) (other.length + stop)
      = (Pending.close crates ⟨descriptor, start, payloadStart⟩ text stop).shift other.length := by
  have same := slice_append_shift other text ⟨payloadStart, stop⟩
  unfold Span.shift at same
  simp only [Pending.close, GeneratedRegion.shift, Span.shift, same, Nat.add_assoc]

theorem marks_shift_iff (other text : List Char) {regions : List GeneratedRegion} :
    Marks crates (other ++ text) (found.map (·.shift other.length)) regions
      ↔ ∃ others, regions = others.map (·.shift other.length) ∧ Marks crates text found others := by
  constructor
  · intro marks
    generalize isFound : found.map (·.shift other.length) = shifted at marks
    induction marks generalizing found with
    | nil =>
      obtain rfl := map_eq_nil_iff.1 isFound
      exact ⟨[], rfl, .nil⟩
    | region isOpening header isClosing _ ih =>
      obtain ⟨opening, found, rfl, rfl, more⟩ := map_eq_cons_iff.1 isFound
      obtain ⟨closing, found, rfl, rfl, rest⟩ := map_eq_cons_iff.1 more
      obtain ⟨others, rfl, marks⟩ := ih rest
      refine ⟨_ :: others, ?_, .region isOpening header isClosing marks⟩
      rw [map_cons, ← Pending.close_shift]
      simp only [Block.shift, Nat.add_assoc]
  · rintro ⟨others, rfl, marks⟩
    induction marks with
    | nil => exact .nil
    | region isOpening header isClosing _ ih =>
      rw [map_cons, map_cons, map_cons, ← Pending.close_shift, ← Nat.add_assoc]
      exact .region isOpening header isClosing ih

end Clepsydra.Bases.Generated
