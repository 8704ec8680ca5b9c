import Clepsydra.Sync.ConflictCopy

/-!
Owns: the fold of duplicate journal pages: how a body splits into blocks, and where they go in the
page that stays.
-/

namespace Clepsydra.Sync

open Vault List

/-! ### Blocks -/

structure Block where
  time : Option String
  text : String
deriving DecidableEq

/-- `str::split_at_checked`: at a byte, if a character ends there. -/
def splitAtChecked : List Char → Nat → Option (List Char × List Char)
  | [], bytes => if bytes = 0 then some ([], []) else none
  | first :: rest, bytes =>
    if bytes = 0 then some ([], first :: rest)
    else if first.utf8Size ≤ bytes then
      (splitAtChecked rest (bytes - first.utf8Size)).map fun (before, after) =>
        (first :: before, after)
    else none

/-- `- 09:41 — text` has the time `09:41`. -/
def entryTime (line : List Char) : Option String :=
  if "- ".toList.isPrefixOf line then
    match splitAtChecked (line.drop 2) 5 with
    | some (time, tail) =>
      match time.flatMap String.utf8EncodeChar with
      | [b0, b1, b2, b3, b4] =>
        let isDigit := fun byte : UInt8 => 48 ≤ byte ∧ byte ≤ 57
        if isDigit b0 ∧ isDigit b1 ∧ b2 = 58 ∧ isDigit b3 ∧ isDigit b4
            ∧ " — ".toList.isPrefixOf tail then
          some (String.ofList time)
        else none
      | _ => none
    | none => none
  else none

def addLine (blocks : List Block) (line : List Char) : List Block :=
  let text := String.ofList line ++ "\n"
  match entryTime line with
  | some time => blocks ++ [⟨some time, text⟩]
  | none =>
    match blocks.getLast? with
    | some last => blocks.dropLast ++ [{ last with text := last.text ++ text }]
    | none => [⟨none, text⟩]

/-- `split_blocks`. -/
def splitBlocks (body : String) : List Block := (lines body).foldl addLine []

/-! ### The fold -/

/-- `str::trim_end`. -/
def trimEnd (text : String) : String :=
  String.ofList (text.toList.reverse.dropWhile isWhitespace).reverse

/-- `rposition`: the place of the last element that passes a test. -/
def rposition {α : Type} (test : α → Bool) : List α → Option Nat
  | [] => none
  | first :: rest =>
    match rposition test rest with
    | some place => some (place + 1)
    | none => if test first then some 0 else none

def placeOf (blocks : List Block) (time : String) : Nat :=
  match rposition (fun block => block.time.any fun other => other ≤ time) blocks with
  | some found => found + 1
  | none => blocks.findIdx fun block => block.time.isSome

def foldBlock (blocks : List Block) (block : Block) : List Block :=
  if blocks.any fun other => trimEnd other.text = trimEnd block.text then blocks
  else
    match block.time with
    | some time => blocks.insertIdx (placeOf blocks time) block
    | none => blocks ++ [block]

/-- The blocks that `interleave` joins. -/
def foldBlocks (winner : String) (losers : List String) : List Block :=
  losers.foldl (fun blocks loser => (splitBlocks loser).foldl foldBlock blocks) (splitBlocks winner)

def interleave (winner : String) (losers : List String) : String :=
  String.join ((foldBlocks winner losers).map Block.text)

/-! ### Where a block goes -/

section Places

variable {α : Type} {test : α → Bool}

theorem rposition_eq_none {elements : List α} (absent : rposition test elements = none) :
    ∀ element ∈ elements, test element = false := by
  induction elements with
  | nil => exact fun _ member => nomatch member
  | cons first rest ih =>
    rw [rposition] at absent
    split at absent
    · cases absent
    · rename_i absentRest
      have fails : ¬test first = true := fun passes => by simp [passes] at absent
      intro element member
      rcases mem_cons.1 member with isFirst | inRest
      · rw [isFirst]
        exact Bool.eq_false_iff.2 fails
      · exact ih absentRest element inRest

theorem rposition_eq_some {elements : List α} {place : Nat}
    (found : rposition test elements = some place) :
    ∃ before last after, elements = before ++ last :: after ∧ before.length = place
      ∧ test last = true ∧ ∀ element ∈ after, test element = false := by
  induction elements generalizing place with
  | nil => cases found
  | cons first rest ih =>
    rw [rposition] at found
    split at found
    · rename_i later foundRest
      have ⟨before, last, after, isRest, isPlace, passes, fails⟩ := ih foundRest
      refine ⟨first :: before, last, after, by rw [isRest, cons_append], ?_, passes, fails⟩
      rw [length_cons, isPlace]
      exact Option.some.inj found
    · rename_i absentRest
      split_ifs at found with passes
      refine ⟨[], first, rest, rfl, Option.some.inj found, passes, ?_⟩
      exact rposition_eq_none absentRest

theorem findIdx_split (elements : List α) :
    ∃ before after, elements = before ++ after ∧ before.length = elements.findIdx test
      ∧ ∀ element ∈ before, test element = false := by
  induction elements with
  | nil => exact ⟨[], [], rfl, rfl, fun _ member => nomatch member⟩
  | cons first rest ih =>
    have ⟨before, after, isRest, isPlace, fails⟩ := ih
    by_cases passes : test first = true
    · refine ⟨[], first :: rest, rfl, ?_, fun _ member => nomatch member⟩
      simp [findIdx_cons, passes]
    · have failsFirst := Bool.eq_false_iff.2 passes
      refine ⟨first :: before, after, by rw [isRest, cons_append], ?_, ?_⟩
      · simp [findIdx_cons, failsFirst, isPlace]
      · intro element member
        rcases mem_cons.1 member with isFirst | inBefore
        · rw [isFirst]
          exact failsFirst
        · exact fails element inBefore

theorem insertIdx_append (before after : List α) (element : α) :
    (before ++ after).insertIdx before.length element = before ++ element :: after := by
  induction before with
  | nil => rfl
  | cons first rest ih =>
    rw [cons_append, length_cons, insertIdx_succ_cons, ih, cons_append]

end Places

def times (blocks : List Block) : List String := blocks.filterMap Block.time

def InOrder (blocks : List Block) : Prop := (times blocks).Pairwise fun first second => first ≤ second

theorem times_append (first second : List Block) :
    times (first ++ second) = times first ++ times second := filterMap_append

variable {blocks : List Block}

theorem mem_times {time : String} :
    time ∈ times blocks ↔ ∃ block ∈ blocks, block.time = some time := mem_filterMap

theorem placeOf_split (inOrder : InOrder blocks) (time : String) :
    ∃ before after, blocks = before ++ after ∧ before.length = placeOf blocks time
      ∧ (∀ other ∈ times before, other ≤ time) ∧ ∀ other ∈ times after, time ≤ other := by
  have later : ∀ {block : Block} {other : String}, block.time = some other →
      (block.time.any fun known => known ≤ time) = false → time ≤ other := by
    intro block other isTime fails
    rw [isTime, Option.any_some, decide_eq_false_iff_not] at fails
    exact le_of_not_ge fails
  unfold placeOf
  cases found : rposition (fun block => block.time.any fun other => other ≤ time) blocks with
  | some place =>
    obtain ⟨before, last, after, rfl, rfl, passes, fails⟩ := rposition_eq_some found
    obtain ⟨lastTime, isLast, notLater⟩ : ∃ lastTime, last.time = some lastTime
        ∧ lastTime ≤ time := by
      simpa [Option.any_eq_true] using passes
    refine ⟨before ++ [last], after, by simp, by simp, ?_, ?_⟩
    · have upToLast : (times (before ++ [last])).Pairwise fun first second => first ≤ second := by
        apply List.Pairwise.sublist _ inOrder
        rw [show before ++ last :: after = (before ++ [last]) ++ after by simp,
          times_append (before ++ [last])]
        exact sublist_append_left _ _
      rw [times_append, pairwise_append] at upToLast
      intro other member
      rw [times_append, mem_append] at member
      have isTimes : times [last] = [lastTime] := by simp [times, isLast]
      rw [isTimes] at upToLast member
      rcases member with earlier | isLastTime
      · exact le_trans (upToLast.2.2 other earlier lastTime mem_cons_self) notLater
      · rw [mem_singleton.1 isLastTime]
        exact notLater
    · intro other member
      obtain ⟨block, inAfter, isTime⟩ := mem_times.1 member
      exact later isTime (fails block inAfter)
  | none =>
    have fails := rposition_eq_none found
    obtain ⟨before, after, isBlocks, isPlace, untimed⟩ :=
      @findIdx_split _ (fun block : Block => block.time.isSome) blocks
    refine ⟨before, after, isBlocks, isPlace, ?_, ?_⟩
    · intro other member
      obtain ⟨block, inBefore, isTime⟩ := mem_times.1 member
      have isUntimed := untimed block inBefore
      rw [isTime] at isUntimed
      cases isUntimed
    · intro other member
      obtain ⟨block, inAfter, isTime⟩ := mem_times.1 member
      exact later isTime (fails block (isBlocks ▸ mem_append_right _ inAfter))

theorem inOrder_foldBlock (inOrder : InOrder blocks) (block : Block) :
    InOrder (foldBlock blocks block) := by
  unfold foldBlock
  split_ifs
  · exact inOrder
  · split
    · rename_i time isTime
      obtain ⟨before, after, isBlocks, isPlace, notLater, notEarlier⟩ := placeOf_split inOrder time
      have inserted : blocks.insertIdx (placeOf blocks time) block = before ++ block :: after := by
        rw [← isPlace, isBlocks, insertIdx_append]
      have isTimes : times (block :: after) = time :: times after := by simp [times, isTime]
      rw [InOrder, isBlocks, times_append, pairwise_append] at inOrder
      rw [InOrder, inserted, times_append, isTimes, pairwise_append, pairwise_cons]
      refine ⟨inOrder.1, ⟨notEarlier, inOrder.2.1⟩, fun first inBefore second member => ?_⟩
      rcases mem_cons.1 member with isTime | inAfter
      · rw [isTime]
        exact notLater first inBefore
      · exact inOrder.2.2 first inBefore second inAfter
    · rename_i untimed
      have noTimes : times [block] = [] := by simp [times, untimed]
      rw [InOrder, times_append, noTimes, append_nil]
      exact inOrder

/-! ### What the fold keeps -/

def Holds (blocks : List Block) (block : Block) : Prop :=
  ∃ kept ∈ blocks, trimEnd kept.text = trimEnd block.text

theorem sublist_foldBlock (blocks : List Block) (block : Block) :
    blocks.Sublist (foldBlock blocks block) := by
  unfold foldBlock
  split_ifs
  · exact List.Sublist.refl _
  · split
    · exact sublist_insertIdx _ _ _
    · exact sublist_append_left _ _

theorem mem_foldBlock {block other : Block} (member : other ∈ foldBlock blocks block) :
    other ∈ blocks ∨ other = block := by
  unfold foldBlock at member
  split_ifs at member
  · exact .inl member
  · split at member
    · exact (eq_or_mem_of_mem_insertIdx member).symm
    · rcases mem_append.1 member with old | new
      · exact .inl old
      · exact .inr (mem_singleton.1 new)

theorem holds_foldBlock (blocks : List Block) (block : Block) :
    Holds (foldBlock blocks block) block := by
  unfold foldBlock
  split_ifs with duplicate
  · simpa [Holds] using duplicate
  · split
    · rename_i time isTime
      refine ⟨block, ?_, rfl⟩
      have inBounds : placeOf blocks time ≤ blocks.length := by
        unfold placeOf
        split
        · rename_i place found
          obtain ⟨before, last, after, isBlocks, isPlace, _⟩ := rposition_eq_some found
          rw [isBlocks, length_append, length_cons]
          omega
        · exact findIdx_le_length
      exact (mem_insertIdx inBounds).2 (.inl rfl)
    · exact ⟨block, mem_append_right _ mem_cons_self, rfl⟩

theorem Holds.mono {fewer more : List Block} {block : Block} (holds : Holds fewer block)
    (sublist : fewer.Sublist more) : Holds more block := by
  have ⟨kept, member, same⟩ := holds
  exact ⟨kept, sublist.subset member, same⟩

structure Folds (before after : List Block) (added : List Block) : Prop where
  sublist : before.Sublist after
  source : ∀ block ∈ after, block ∈ before ∨ block ∈ added
  holds : ∀ block ∈ added, Holds after block
  inOrder : InOrder before → InOrder after

theorem folds_page (before added : List Block) : Folds before (added.foldl foldBlock before) added := by
  induction added generalizing before with
  | nil =>
    exact ⟨List.Sublist.refl _, fun _ member => .inl member, fun _ member => (nomatch member), id⟩
  | cons block rest ih =>
    have later := ih (foldBlock before block)
    refine ⟨(sublist_foldBlock before block).trans later.sublist, ?_, ?_, ?_⟩
    · intro other member
      rcases later.source other member with folded | inRest
      · rcases mem_foldBlock folded with old | isBlock
        · exact .inl old
        · exact .inr (isBlock ▸ mem_cons_self)
      · exact .inr (mem_cons_of_mem _ inRest)
    · intro other member
      rcases mem_cons.1 member with isBlock | inRest
      · rw [isBlock]
        exact (holds_foldBlock before block).mono later.sublist
      · exact later.holds other inRest
    · exact fun inOrder => later.inOrder (inOrder_foldBlock inOrder block)

theorem folds_pages (before : List Block) (losers : List String) : Folds before
      (losers.foldl (fun blocks loser => (splitBlocks loser).foldl foldBlock blocks) before)
      (losers.flatMap splitBlocks) := by
  induction losers generalizing before with
  | nil =>
    exact ⟨List.Sublist.refl _, fun _ member => .inl member, fun _ member => (nomatch member), id⟩
  | cons loser rest ih =>
    have first := folds_page before (splitBlocks loser)
    have later := ih ((splitBlocks loser).foldl foldBlock before)
    refine ⟨first.sublist.trans later.sublist, ?_, ?_, fun inOrder =>
      later.inOrder (first.inOrder inOrder)⟩
    · intro block member
      rw [flatMap_cons, mem_append]
      rcases later.source block member with folded | inRest
      · exact (first.source block folded).imp_right .inl
      · exact .inr (.inr inRest)
    · intro block member
      rw [flatMap_cons, mem_append] at member
      rcases member with inLoser | inRest
      · exact (first.holds block inLoser).mono later.sublist
      · exact later.holds block inRest

/-- Every block is folded in, the page that stays keeps its order, and so do entries in order of
time. -/
theorem journal_fold_loses_nothing (winner : String) (losers : List String) :
    (∀ page ∈ winner :: losers, ∀ block ∈ splitBlocks page, Holds (foldBlocks winner losers) block)
      ∧ (∀ block ∈ foldBlocks winner losers, ∃ page ∈ winner :: losers, block ∈ splitBlocks page)
      ∧ (splitBlocks winner).Sublist (foldBlocks winner losers)
      ∧ (InOrder (splitBlocks winner) → InOrder (foldBlocks winner losers)) := by
  have folds : Folds (splitBlocks winner) (foldBlocks winner losers) (losers.flatMap splitBlocks) :=
    folds_pages (splitBlocks winner) losers
  refine ⟨?_, ?_, folds.sublist, folds.inOrder⟩
  · intro page member block inPage
    rcases mem_cons.1 member with isWinner | isLoser
    · exact ⟨block, folds.sublist.subset (isWinner ▸ inPage), rfl⟩
    · exact folds.holds block (mem_flatMap.2 ⟨page, isLoser, inPage⟩)
  · intro block member
    rcases folds.source block member with inWinner | inLosers
    · exact ⟨winner, mem_cons_self, inWinner⟩
    · have ⟨page, isLoser, inPage⟩ := mem_flatMap.1 inLosers
      exact ⟨page, mem_cons_of_mem _ isLoser, inPage⟩

/-- A duplicate is dropped and an earlier entry goes before the later one. -/
example : interleave "- 09:00 — a\n- 10:00 — b\n" ["- 09:30 — c\n- 10:00 — b  \n"]
      = "- 09:00 — a\n- 09:30 — c\n- 10:00 — b\n" := by
  decide +kernel

end Clepsydra.Sync
