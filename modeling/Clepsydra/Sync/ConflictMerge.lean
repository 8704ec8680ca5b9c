import Clepsydra.Library.Pieces

/-!
Owns: the line diff between a page and its Conflict Copy, and the text assembled from chosen hunks.

Proves: a side that is chosen throughout comes out as it is, and the lines of a hunk that keeps
both sides are whole lines of the result, whatever is chosen elsewhere.
-/

namespace Clepsydra.Sync.ConflictMerge

open Library.Pieces List

/-! ### The diff -/

/-- A string: its UTF-16 code units. -/
abbrev Text := List UInt16

def lineFeed : UInt16 := 10

inductive PartKind where
  | kept
  | removed
  | added
deriving DecidableEq

/-- A change object of `diffArrays`. -/
structure Part where
  kind : PartKind
  value : List Text
deriving DecidableEq

structure Hunk where
  id : Nat
  localLines : List Text
  otherLines : List Text
deriving DecidableEq

inductive Segment where
  | same (lines : List Text)
  | change (hunk : Hunk)
deriving DecidableEq

inductive Choice where
  | localSide
  | otherSide
  | both
deriving DecidableEq

/-- The matches of `[^\n]*\n|[^\n]+$`. -/
def splitLines (text : Text) : List Text := splitInclusive lineFeed text

def Hunk.push (hunk : Hunk) (part : Part) : Hunk :=
  if part.kind = .added then { hunk with otherLines := hunk.otherLines ++ part.value }
  else { hunk with localLines := hunk.localLines ++ part.value }

/-- The loop of `diffSegments`; an open hunk stands in its place once it is closed. -/
def segmentsFrom (nextId : Nat) (hunk : Option Hunk) : List Part → List Segment
  | [] => (hunk.map Segment.change).toList
  | part :: rest =>
    if part.kind = .kept then
      (hunk.map Segment.change).toList ++ .same part.value :: segmentsFrom nextId none rest
    else
      segmentsFrom (if hunk.isNone then nextId + 1 else nextId)
        (some ((hunk.getD ⟨nextId, [], []⟩).push part)) rest

def diffSegments (diffArrays : List Text → List Text → List Part) (text other : Text) :
    List Segment :=
  segmentsFrom 0 none (diffArrays (splitLines text) (splitLines other))

/-- A local line where both sides are kept: the last one is ended, if it is not and another line
follows. -/
def Hunk.terminated (hunk : Hunk) (index : Nat) (line : Text) : Text :=
  if index + 1 = hunk.localLines.length ∧ line.getLast? ≠ some lineFeed
    ∧ 0 < hunk.otherLines.length then line ++ [lineFeed] else line

def chosenLines (hunk : Hunk) : Choice → List Text
  | .localSide => hunk.localLines
  | .otherSide => hunk.otherLines
  | .both => hunk.localLines.mapIdx hunk.terminated ++ hunk.otherLines

def Segment.chosen (choices : Nat → Option Choice) : Segment → List Text
  | .same lines => lines
  | .change hunk => chosenLines hunk ((choices hunk.id).getD .localSide)

def assembleMerge (segments : List Segment) (choices : Nat → Option Choice) : Text :=
  (segments.flatMap (Segment.chosen choices)).flatten

/-! ### What the parts make of both sides -/

def Part.localLines (part : Part) : List Text := if part.kind = .added then [] else part.value

def Part.otherLines (part : Part) : List Text := if part.kind = .removed then [] else part.value

/-- What is relied on of `diffArrays`: the parts make up both arrays, and a part is empty only when
there is nothing to compare. -/
structure EditScript (first second : List Text) (parts : List Part) : Prop where
  first_eq : parts.flatMap Part.localLines = first
  second_eq : parts.flatMap Part.otherLines = second
  nonempty : ∀ part ∈ parts, part.value ≠ [] ∨ parts = [part]

def Segment.localLines : Segment → List Text
  | .same lines => lines
  | .change hunk => hunk.localLines

def Segment.otherLines : Segment → List Text
  | .same lines => lines
  | .change hunk => hunk.otherLines

@[simp] def Segment.hunk? : Segment → Option Hunk
  | .same _ => none
  | .change hunk => some hunk

def Alternating (first second : Segment) : Prop := first.hunk? = none ∨ second.hunk? = none

theorem localLines_push (hunk : Hunk) {part : Part} (changes : part.kind ≠ .kept) :
    (hunk.push part).localLines = hunk.localLines ++ part.localLines
      ∧ (hunk.push part).otherLines = hunk.otherLines ++ part.otherLines
      ∧ (hunk.push part).id = hunk.id := by
  have ⟨kind, value⟩ := part
  cases kind with
  | kept => exact absurd rfl changes
  | removed | added => simp [Hunk.push, Part.localLines, Part.otherLines]

/-! ### Segments -/

variable {nextId : Nat} {hunk : Option Hunk} {parts : List Part}

theorem sides_segmentsFrom :
    (segmentsFrom nextId hunk parts).flatMap Segment.localLines
        = (hunk.map Hunk.localLines).getD [] ++ parts.flatMap Part.localLines
      ∧ (segmentsFrom nextId hunk parts).flatMap Segment.otherLines
        = (hunk.map Hunk.otherLines).getD [] ++ parts.flatMap Part.otherLines := by
  induction parts generalizing nextId hunk with
  | nil => cases hunk <;> simp [segmentsFrom, Segment.localLines, Segment.otherLines]
  | cons part rest ih =>
    rw [segmentsFrom]
    by_cases isKept : part.kind = .kept
    · rw [if_pos isKept]
      cases hunk <;>
        simp [ih, Segment.localLines, Segment.otherLines, Part.localLines, Part.otherLines, isKept]
    · rw [if_neg isKept]
      cases hunk <;> simp [ih, localLines_push _ isKept]

theorem ids_segmentsFrom : ∃ count,
    ((segmentsFrom nextId hunk parts).filterMap Segment.hunk?).map Hunk.id
      = (hunk.map Hunk.id).toList ++ List.range' nextId count := by
  induction parts generalizing nextId hunk with
  | nil => exact ⟨0, by cases hunk <;> rfl⟩
  | cons part rest ih =>
    rw [segmentsFrom]
    by_cases isKept : part.kind = .kept
    · rw [if_pos isKept]
      have ⟨count, ids⟩ := @ih nextId none
      exact ⟨count, by cases hunk <;> simpa [filterMap_cons] using ids⟩
    · rw [if_neg isKept]
      cases hunk with
      | none =>
        have ⟨count, ids⟩ := @ih (nextId + 1) (some (Hunk.push ⟨nextId, [], []⟩ part))
        exact ⟨count + 1, by simpa [localLines_push _ isKept, range'_succ] using ids⟩
      | some hunk =>
        have ⟨count, ids⟩ := @ih nextId (some (hunk.push part))
        exact ⟨count, by simpa [localLines_push _ isKept] using ids⟩

theorem alternating_segmentsFrom : (segmentsFrom nextId hunk parts).IsChain Alternating := by
  induction parts generalizing nextId hunk with
  | nil => cases hunk <;> simp [segmentsFrom]
  | cons part rest ih =>
    rw [segmentsFrom]
    by_cases isKept : part.kind = .kept
    · rw [if_pos isKept]
      have behind : (.same part.value :: segmentsFrom nextId none rest).IsChain Alternating :=
        isChain_cons.2 ⟨fun _ _ => .inl rfl, ih⟩
      cases hunk with
      | none => exact behind
      | some hunk => exact isChain_cons.2 ⟨fun _ isNext => .inr (Option.some.inj isNext ▸ rfl), behind⟩
    · rw [if_neg isKept]
      exact ih

def Segment.Nonempty (segment : Segment) : Prop :=
  segment.localLines ≠ [] ∨ segment.otherLines ≠ []

theorem nonempty_push (hunk : Hunk) {part : Part} (some : part.value ≠ []) :
    (Segment.change (hunk.push part)).Nonempty := by
  unfold Hunk.push
  split_ifs
  · exact .inr (append_ne_nil_of_right_ne_nil _ some)
  · exact .inl (append_ne_nil_of_right_ne_nil _ some)

theorem nonempty_segmentsFrom (opened : ∀ opening ∈ hunk, (Segment.change opening).Nonempty)
    (some : ∀ part ∈ parts, part.value ≠ []) :
    ∀ segment ∈ segmentsFrom nextId hunk parts, segment.Nonempty := by
  induction parts generalizing nextId hunk with
  | nil =>
    cases hunk with
    | none => exact nofun
    | some hunk => exact forall_mem_singleton.2 (opened hunk rfl)
  | cons part rest ih =>
    rw [forall_mem_cons] at some
    rw [segmentsFrom]
    by_cases isKept : part.kind = .kept
    · rw [if_pos isKept]
      have behind : ∀ segment ∈ .same part.value :: segmentsFrom nextId none rest,
          segment.Nonempty := forall_mem_cons.2 ⟨.inl some.1, ih nofun some.2⟩
      cases hunk with
      | none => exact behind
      | some hunk => exact forall_mem_cons.2 ⟨opened hunk rfl, behind⟩
    · rw [if_neg isKept]
      exact ih (fun _ isOpen => Option.some.inj isOpen ▸ nonempty_push _ some.1) some.2

theorem ended_of_followed {segments : List Segment}
    (inLocal : (segments.flatMap Segment.localLines).Pairwise fun line _ => Ended lineFeed line)
    (inOther : (segments.flatMap Segment.otherLines).Pairwise fun line _ => Ended lineFeed line)
    (alternating : segments.IsChain Alternating) (nonempty : ∀ segment ∈ segments, segment.Nonempty) :
    segments.Pairwise fun segment _ =>
      ∀ line, line ∈ segment.localLines ∨ line ∈ segment.otherLines → Ended lineFeed line := by
  induction segments with
  | nil => exact .nil
  | cons segment rest ih =>
    rw [flatMap_cons, pairwise_append] at inLocal inOther
    rw [forall_mem_cons] at nonempty
    refine .cons ?_ (ih inLocal.2.1 inOther.2.1 (isChain_cons.1 alternating).2 nonempty.2)
    cases rest with
    | nil => exact nofun
    | cons next rest =>
      -- the next segment has a line on each side on which this one may have its last
      have ofLocal : next.localLines ≠ [] → ∀ line ∈ segment.localLines, Ended lineFeed line := by
        intro some line member
        have ⟨later, isLater⟩ := exists_mem_of_ne_nil _ some
        exact inLocal.2.2 line member later (mem_flatMap.2 ⟨next, mem_cons_self, isLater⟩)
      have ofOther : next.otherLines ≠ [] → ∀ line ∈ segment.otherLines, Ended lineFeed line := by
        intro some line member
        have ⟨later, isLater⟩ := exists_mem_of_ne_nil _ some
        exact inOther.2.2 line member later (mem_flatMap.2 ⟨next, mem_cons_self, isLater⟩)
      have isNext := nonempty.2 next mem_cons_self
      intro _ _ line member
      cases segment with
      | same lines =>
        have inLines : line ∈ lines := member.elim (fun here => here) fun here => here
        exact isNext.elim (fun some => ofLocal some line inLines) fun some => ofOther some line inLines
      | change hunk =>
        cases next with
        | change other => exact (isChain_cons_cons.1 alternating).1.elim nofun nofun
        | same lines =>
          have some : lines ≠ [] := isNext.elim (fun some => some) fun some => some
          exact member.elim (ofLocal some line) (ofOther some line)

/-! ### Chosen lines -/

section Chosen

variable {hunk : Hunk} (isPiece : ∀ line ∈ hunk.localLines, IsPiece lineFeed line)
  (ended : hunk.localLines.Pairwise fun line _ => Ended lineFeed line)

include isPiece

theorem terminated_cases {index : Nat} (inside : index < hunk.localLines.length) :
    hunk.terminated index hunk.localLines[index] = hunk.localLines[index]
      ∨ Ended lineFeed (hunk.terminated index hunk.localLines[index]) := by
  unfold Hunk.terminated
  split_ifs with appends
  · rcases isPiece _ (getElem_mem inside) with ⟨content, _, isLine⟩ | ⟨_, absent⟩
    · rw [isLine, getLast?_concat] at appends
      exact absurd rfl appends.2.1
    · exact .inr ⟨_, absent, rfl⟩
  · exact .inl rfl

theorem chosenLines_cases {choice : Choice} {line : Text} (member : line ∈ chosenLines hunk choice) :
    line ∈ hunk.localLines ∨ line ∈ hunk.otherLines ∨ Ended lineFeed line := by
  cases choice with
  | localSide => exact .inl member
  | otherSide => exact .inr (.inl member)
  | both =>
    rcases mem_append.1 member with inLocal | inOther
    · have ⟨index, inside, isLine⟩ := mem_mapIdx.1 inLocal
      rw [← isLine]
      rcases terminated_cases isPiece inside with same | isEnded
      · exact .inl (same.symm ▸ getElem_mem inside)
      · exact .inr (.inr isEnded)
    · exact .inr (.inl inOther)

include ended

theorem pairwise_chosenLines
    (otherEnded : hunk.otherLines.Pairwise fun line _ => Ended lineFeed line) (choice : Choice) :
    (chosenLines hunk choice).Pairwise fun line _ => Ended lineFeed line := by
  cases choice with
  | localSide => exact ended
  | otherSide => exact otherEnded
  | both =>
    have ofPlace : ∀ index (inside : index < hunk.localLines.length),
        (index + 1 < hunk.localLines.length ∨ 0 < hunk.otherLines.length) →
        Ended lineFeed (hunk.terminated index hunk.localLines[index]) := by
      intro index inside followed
      rcases terminated_cases isPiece inside with same | isEnded
      · rw [same]
        by_cases isLast : index + 1 = hunk.localLines.length
        · have notAppended : hunk.localLines[index].getLast? = some lineFeed := by
            by_contra unended
            rw [Hunk.terminated, if_pos ⟨isLast, unended, by omega⟩] at same
            exact absurd (congrArg length same) (by simp)
          rcases isPiece _ (getElem_mem inside) with isEnded | ⟨_, absent⟩
          · exact isEnded
          · exact absurd (mem_of_getLast? notAppended) absent
        · exact pairwise_iff_getElem.1 ended index (index + 1) inside (by omega) (by omega)
      · exact isEnded
    refine pairwise_append.2 ⟨pairwise_iff_getElem.2 ?_, otherEnded, ?_⟩
    · intro index later inside laterInside isLater
      rw [length_mapIdx] at inside laterInside
      rw [getElem_mapIdx]
      exact ofPlace index inside (.inl (by omega))
    · intro line member next isNext
      have ⟨index, inside, isLine⟩ := mem_mapIdx.1 member
      exact isLine ▸ ofPlace index inside (.inr (length_pos_of_mem isNext))

end Chosen

/-! ### The result -/

section Result

variable {diffArrays : List Text → List Text → List Part} {text other : Text}
  (script : EditScript (splitLines text) (splitLines other)
    (diffArrays (splitLines text) (splitLines other)))

include script

theorem sides_diffSegments :
    (diffSegments diffArrays text other).flatMap Segment.localLines = splitLines text
      ∧ (diffSegments diffArrays text other).flatMap Segment.otherLines = splitLines other := by
  rw [diffSegments, sides_segmentsFrom.1, sides_segmentsFrom.2, script.first_eq, script.second_eq]
  exact ⟨rfl, rfl⟩

theorem ended_diffSegments : (diffSegments diffArrays text other).Pairwise fun segment _ =>
    ∀ line, line ∈ segment.localLines ∨ line ∈ segment.otherLines → Ended lineFeed line := by
  by_cases some : ∀ part ∈ diffArrays (splitLines text) (splitLines other), part.value ≠ []
  · have ⟨inLocal, inOther⟩ := sides_diffSegments script
    have localEnded := (@splitInclusive_shape _ lineFeed _ text).1
    have otherEnded := (@splitInclusive_shape _ lineFeed _ other).1
    rw [← splitLines, ← inLocal] at localEnded
    rw [← splitLines, ← inOther] at otherEnded
    exact ended_of_followed localEnded otherEnded alternating_segmentsFrom
      (nonempty_segmentsFrom nofun some)
  · rw [not_forall] at some
    have ⟨part, isEmpty⟩ := some
    rw [Classical.not_imp] at isEmpty
    rw [diffSegments, (script.nonempty part isEmpty.1).resolve_left isEmpty.2, segmentsFrom]
    by_cases isKept : part.kind = .kept
    · rw [if_pos isKept]
      exact pairwise_singleton _ _
    · rw [if_neg isKept]
      exact pairwise_singleton _ _

/-- The lines of the result are the chosen lines. -/
theorem splitLines_assembleMerge (choices : Nat → Option Choice) :
    splitLines (assembleMerge (diffSegments diffArrays text other) choices)
      = (diffSegments diffArrays text other).flatMap (Segment.chosen choices) := by
  have ⟨inLocal, inOther⟩ := sides_diffSegments script
  have ⟨localEnded, localPiece, _⟩ := @splitInclusive_shape _ lineFeed _ text
  have ⟨otherEnded, otherPiece, _⟩ := @splitInclusive_shape _ lineFeed _ other
  rw [← splitLines, ← inLocal] at localEnded localPiece
  rw [← splitLines, ← inOther] at otherEnded otherPiece
  rw [pairwise_flatMap] at localEnded otherEnded
  have ofSegment : ∀ segment ∈ diffSegments diffArrays text other,
      ∀ line ∈ segment.chosen choices,
        line ∈ segment.localLines ∨ line ∈ segment.otherLines ∨ Ended lineFeed line := by
    intro segment member line isLine
    cases segment with
    | same lines => exact .inl isLine
    | change hunk =>
      exact chosenLines_cases (fun line inLocal =>
        localPiece line (mem_flatMap.2 ⟨_, member, inLocal⟩)) isLine
  apply splitInclusive_flatten
  · refine pairwise_flatMap.2 ⟨fun segment member => ?_, ?_⟩
    · cases segment with
      | same lines => exact localEnded.1 _ member
      | change hunk =>
        exact pairwise_chosenLines (fun line inLocal =>
          localPiece line (mem_flatMap.2 ⟨_, member, inLocal⟩)) (localEnded.1 _ member)
          (otherEnded.1 _ member) _
    · apply Pairwise.imp_of_mem _ (ended_diffSegments script)
      intro segment _ member _ ended line isLine _ _
      rcases ofSegment segment member line isLine with here | here | isEnded
      · exact ended line (.inl here)
      · exact ended line (.inr here)
      · exact isEnded
  · intro line member
    have ⟨segment, inSegments, isLine⟩ := mem_flatMap.1 member
    rcases ofSegment segment inSegments line isLine with here | here | isEnded
    · exact localPiece line (mem_flatMap.2 ⟨segment, inSegments, here⟩)
    · exact otherPiece line (mem_flatMap.2 ⟨segment, inSegments, here⟩)
    · exact .inl isEnded

end Result

/-- **Conflict merge assembly is exact.** A side that is chosen throughout comes out as it is; the
identifiers count the hunks, of which no two are adjacent; and where a hunk keeps both sides, its
lines are lines of the result, one after another. -/
theorem conflict_merge_exact {diffArrays : List Text → List Text → List Part}
    (edits : ∀ first second, EditScript first second (diffArrays first second)) (text other : Text)
    (choices : Nat → Option Choice) :
    let segments := diffSegments diffArrays text other
    let hunks := segments.filterMap Segment.hunk?
    let result := assembleMerge segments choices
    ((∀ hunk ∈ hunks, choices hunk.id = none ∨ choices hunk.id = some .localSide) → result = text)
      ∧ ((∀ hunk ∈ hunks, choices hunk.id = some .otherSide) → result = other)
      ∧ hunks.map Hunk.id = List.range hunks.length
      ∧ segments.IsChain Alternating
      ∧ ∀ hunk ∈ hunks, choices hunk.id = some .both →
        chosenLines hunk .both <:+: splitLines result
        ∧ (∀ line ∈ hunk.localLines,
          line ∈ splitLines result ∨ line ++ [lineFeed] ∈ splitLines result)
        ∧ ∀ line ∈ hunk.otherLines, line ∈ splitLines result := by
  intro segments hunks result
  have script := edits (splitLines text) (splitLines other)
  have ⟨inLocal, inOther⟩ := sides_diffSegments script
  have taken : ∀ side : Segment → List Text,
      (∀ segment ∈ segments, segment.chosen choices = side segment) →
      result = (segments.flatMap side).flatten := by
    intro side same
    show (segments.flatMap (Segment.chosen choices)).flatten = _
    rw [flatMap_def, map_congr_left same, ← flatMap_def]
  have inHunks : ∀ {hunk}, .change hunk ∈ segments → hunk ∈ hunks :=
    fun member => mem_filterMap.2 ⟨_, member, rfl⟩
  refine ⟨fun chosen => ?_, fun chosen => ?_, ?_, alternating_segmentsFrom, ?_⟩
  · rw [taken Segment.localLines, inLocal]
    · exact (splitInclusive_shape text).2.2
    · intro segment member
      cases segment with
      | same lines => rfl
      | change hunk =>
        rcases chosen hunk (inHunks member) with isNone | isLocal
        · rw [Segment.chosen, isNone]
          rfl
        · rw [Segment.chosen, isLocal]
          rfl
  · rw [taken Segment.otherLines, inOther]
    · exact (splitInclusive_shape other).2.2
    · intro segment member
      cases segment with
      | same lines => rfl
      | change hunk =>
        rw [Segment.chosen, chosen hunk (inHunks member)]
        rfl
  · have ⟨count, ids⟩ := @ids_segmentsFrom 0 none (diffArrays (splitLines text) (splitLines other))
    have isCount := congrArg length ids
    rw [length_map] at isCount
    rw [show hunks.map Hunk.id = _ from ids, show hunks.length = _ from isCount]
    simp [range_eq_range']
  · intro hunk member keepsBoth
    have ⟨segment, inSegments, isHunk⟩ := mem_filterMap.1 member
    have ⟨before, after, isSplit⟩ := append_of_mem inSegments
    have isChosen : segment.chosen choices = chosenLines hunk .both := by
      cases segment with
      | same lines => exact nomatch isHunk
      | change changed =>
        rw [Option.some.inj isHunk, Segment.chosen, keepsBoth]
        rfl
    have block : chosenLines hunk .both <:+: splitLines result := by
      rw [show splitLines result = _ from splitLines_assembleMerge script choices, ← isChosen]
      rw [show diffSegments diffArrays text other = _ from isSplit, flatMap_append, flatMap_cons]
      exact ⟨before.flatMap _, after.flatMap _, append_assoc _ _ _⟩
    refine ⟨block, fun line inLocal => ?_, fun line inOther =>
      block.subset (mem_append_right _ inOther)⟩
    have ⟨index, inside, isLine⟩ := mem_iff_getElem.1 inLocal
    have inBlock := block.subset (mem_append_left _ (mem_mapIdx.2 ⟨index, inside, rfl⟩))
    rw [isLine, Hunk.terminated] at inBlock
    split_ifs at inBlock
    · exact .inr inBlock
    · exact .inl inBlock

/-- A diff that keeps nothing, unless the sides are the same. -/
def sampleDiff (first second : List Text) : List Part :=
  if first = second then [⟨.kept, first⟩]
  else [⟨.removed, first⟩, ⟨.added, second⟩].filter fun part => !part.value.isEmpty

theorem conflict_merge_exact_both :
    let segments := diffSegments sampleDiff [97] [98]
    segments.filterMap Segment.hunk? = [⟨0, [[97]], [[98]]⟩]
      ∧ [[97, 10], [98]] <:+: splitLines (assembleMerge segments fun _ => some .both) := by
  have edits : ∀ first second, EditScript first second (sampleDiff first second) := by
    intro first second
    unfold sampleDiff
    split_ifs with same
    · exact ⟨by simp [Part.localLines], by simp [Part.otherLines, same], by simp⟩
    · cases first <;> cases second <;> first
        | exact absurd rfl same
        | exact ⟨by simp [Part.localLines], by simp [Part.otherLines], by simp⟩
  have hunks : (diffSegments sampleDiff [97] [98]).filterMap Segment.hunk?
      = [⟨0, [[97]], [[98]]⟩] := by decide
  have exact := (conflict_merge_exact edits [97] [98] fun _ => some .both).2.2.2.2 ⟨0, [[97]], [[98]]⟩
    (by rw [hunks]; exact mem_cons_self) rfl
  exact ⟨hunks, exact.1⟩

end Clepsydra.Sync.ConflictMerge
