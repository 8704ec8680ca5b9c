import Clepsydra.Sync.JournalMerge

/-!
Owns: the fold of a page into one it was folded into before.

Proves: exactly when the second fold adds nothing.
-/

namespace Clepsydra.Sync

open Vault List

/-! ### Lines -/

variable {texts : List (List Char)}

def ended (texts : List (List Char)) : List Char := texts.flatMap fun line => line ++ ['\n']

/-- What `str::lines` takes off a line that a line feed ends. -/
def withoutReturn (line : List Char) : List Char :=
  if line.getLast? = some '\r' then line.dropLast else line

theorem ended_append (first second : List (List Char)) :
    ended (first ++ second) = ended first ++ ended second := flatMap_append

theorem splitOn_ended (whole : ∀ line ∈ texts, '\n' ∉ line) :
    (ended texts).splitOn '\n' = texts ++ [[]] := by
  induction texts with
  | nil => rfl
  | cons line rest ih =>
    have split : ended (line :: rest) = line ++ '\n' :: ended rest := by
      simp [ended]
    rw [split, splitOn_append_cons_self,
      splitOn_eq_singleton (whole line mem_cons_self),
      ih fun other member => whole other (mem_cons_of_mem _ member)]
    rfl

theorem lines_ended (whole : ∀ line ∈ texts, '\n' ∉ line) :
    lines (String.ofList (ended texts)) = texts.map withoutReturn := by
  unfold lines
  rw [String.toList_ofList, splitOn_ended whole]
  simp only [dropLast_concat, getLast?_append, getLast?_singleton, Option.some_or,
    Option.toList_some]
  show _ ++ List.filter _ [[]] = _
  simp [withoutReturn]

theorem ended_injective {first second : List (List Char)} (whole : ∀ line ∈ first, '\n' ∉ line)
    (whole' : ∀ line ∈ second, '\n' ∉ line) (same : ended first = ended second) :
    first = second := by
  have splits := congrArg (List.splitOn '\n') same
  rw [splitOn_ended whole, splitOn_ended whole'] at splits
  exact append_cancel_right splits

theorem withoutReturn_eq_self_iff {line : List Char} :
    withoutReturn line = line ↔ line.getLast? ≠ some '\r' := by
  unfold withoutReturn
  by_cases isReturn : line.getLast? = some '\r'
  · rw [if_pos isReturn]
    constructor
    · intro same
      have shorter := congrArg List.length same
      have nonempty : line ≠ [] := fun none => by simp [none] at isReturn
      have positive := length_pos_iff.2 nonempty
      rw [length_dropLast] at shorter
      omega
    · exact fun other => absurd isReturn other
  · rw [if_neg isReturn]
    exact ⟨fun _ => isReturn, fun _ => rfl⟩

theorem map_withoutReturn_iff :
    texts.map withoutReturn = texts ↔ ∀ line ∈ texts, line.getLast? ≠ some '\r' := by
  have each : texts.map withoutReturn = texts.map id ↔ _ := map_inj_left
  rw [map_id] at each
  rw [each]
  exact forall₂_congr fun line _ => withoutReturn_eq_self_iff

theorem not_mem_withoutReturn {line : List Char} (whole : '\n' ∉ line) :
    '\n' ∉ withoutReturn line := by
  unfold withoutReturn
  split_ifs
  · exact fun member => whole (dropLast_subset _ member)
  · exact whole

theorem not_mem_lines (text : String) : ∀ line ∈ lines text, '\n' ∉ line := by
  have parts : ∀ part ∈ text.toList.splitOn '\n', '\n' ∉ part :=
    fun part member => VaultPath.notMem_of_mem_splitOn _ part member
  intro line member
  rcases mem_append.1 member with inEnded | isLast
  · obtain ⟨part, inParts, rfl⟩ := mem_map.1 inEnded
    exact not_mem_withoutReturn (parts part (dropLast_subset _ inParts))
  · have inLast := (mem_filter.1 isLast).1
    exact parts line (mem_of_mem_getLast? (by simpa using inLast))

/-! ### The lines of a block -/

variable {added blocks : List Block} {block : Block}

structure Reads (block : Block) (first : List Char) (rest : List (List Char)) : Prop where
  text : block.text.toList = ended (first :: rest)
  time : block.time = entryTime first
  others : ∀ line ∈ rest, entryTime line = none
  whole : ∀ line ∈ first :: rest, '\n' ∉ line

inductive Holding : List Block → List (List Char) → Prop
  | nil : Holding [] []
  | next {blocks : List Block} {texts : List (List Char)} {block : Block} {first : List Char}
      {rest : List (List Char)} (holding : Holding blocks texts) (reads : Reads block first rest) :
      Holding (blocks ++ [block]) (texts ++ first :: rest)

def Led (blocks : List Block) : Prop := ∀ block ∈ blocks.tail, block.time.isSome = true

def behind (blocks : List Block) (block : Block) : List Block :=
  match block.time with
  | some _ => blocks ++ [block]
  | none =>
    match blocks.getLast? with
    | some last => blocks.dropLast ++ [{ last with text := last.text ++ block.text }]
    | none => [block]

theorem behind_timed {block : Block} (timed : block.time.isSome = true) (blocks : List Block) :
    behind blocks block = blocks ++ [block] := by
  have ⟨time, isTime⟩ := Option.isSome_iff_exists.1 timed
  unfold behind
  rw [isTime]

theorem behind_nil (block : Block) : behind [] block = [block] := by
  unfold behind
  split
  · rfl
  · rfl

theorem behind_last {block : Block} (headless : block.time = none) (before : List Block)
    (last : Block) :
    behind (before ++ [last]) block
      = before ++ [{ last with text := last.text ++ block.text }] := by
  unfold behind
  rw [headless]
  simp

theorem foldl_behind_timed (timed : ∀ block ∈ added, block.time.isSome = true) (blocks : List Block) :
    added.foldl behind blocks = blocks ++ added := by
  induction added generalizing blocks with
  | nil => rw [foldl_nil, append_nil]
  | cons block rest ih =>
    rw [foldl_cons, behind_timed (timed block mem_cons_self),
      ih fun other member => timed other (mem_cons_of_mem _ member),
      append_assoc, singleton_append]

theorem Led.foldl_behind (led : Led blocks) : blocks.foldl behind [] = blocks := by
  cases blocks with
  | nil => rfl
  | cons first rest =>
    rw [foldl_cons, behind_nil]
    exact foldl_behind_timed led [first]

theorem addLine_eq_behind (blocks : List Block) (line : List Char) :
    addLine blocks line = behind blocks ⟨entryTime line, String.ofList line ++ "\n"⟩ := by
  unfold addLine behind
  cases entryTime line with
  | some time => rfl
  | none => rfl

theorem foldl_addLine_headless (headless : ∀ line ∈ texts, entryTime line = none)
    (before : List Block) (last : Block) :
    texts.foldl addLine (before ++ [last])
      = before ++ [{ last with text := last.text ++ String.ofList (ended texts) }] := by
  induction texts generalizing last with
  | nil => simp [ended]
  | cons line rest ih =>
    have isHeadless := headless line mem_cons_self
    rw [foldl_cons, addLine_eq_behind, behind_last isHeadless,
      ih fun other member => headless other (mem_cons_of_mem _ member)]
    have joined : last.text ++ (String.ofList line ++ "\n") ++ String.ofList (ended rest)
        = last.text ++ String.ofList (ended (line :: rest)) := by
      apply String.ext
      simp [ended]
    rw [joined]

variable {rest : List (List Char)}

theorem foldl_addLine_block {first : List Char} (reads : Reads block first rest)
    (blocks : List Block) :
    (first :: rest).foldl addLine blocks = behind blocks block := by
  have isText : String.ofList first ++ "\n" ++ String.ofList (ended rest) = block.text := by
    apply String.ext
    rw [reads.text]
    simp [ended]
  have opens : ∀ before, rest.foldl addLine (before ++ [⟨block.time, String.ofList first ++ "\n"⟩])
      = before ++ [block] := by
    intro before
    rw [foldl_addLine_headless reads.others, isText]
  rw [foldl_cons, addLine_eq_behind, ← reads.time]
  cases isTime : block.time with
  | some time =>
    have timed : block.time.isSome = true := by rw [isTime]; rfl
    rw [← isTime, behind_timed timed,
      @behind_timed ⟨block.time, String.ofList first ++ "\n"⟩ timed, opens]
  | none =>
    rcases eq_nil_or_concat' blocks with isEmpty | ⟨before, last, isBlocks⟩
    · rw [isEmpty, behind_nil, behind_nil, ← isTime]
      exact opens []
    · rw [isBlocks, behind_last rfl, behind_last isTime, foldl_addLine_headless reads.others,
        String.append_assoc, isText]

theorem foldl_addLine_holding (holding : Holding blocks texts) :
    texts.foldl addLine [] = blocks.foldl behind [] := by
  induction holding with
  | nil => rfl
  | next holding reads ih =>
    rw [foldl_append, ih, foldl_addLine_block reads, foldl_append]
    rfl

/-! ### Split and joined -/

theorem Holding.reads (holding : Holding blocks texts) :
    ∀ block ∈ blocks, ∃ first rest, Reads block first rest := by
  induction holding with
  | nil => exact fun _ member => nomatch member
  | next holding reads ih =>
    intro block member
    rcases mem_append.1 member with inBlocks | isLast
    · exact ih block inBlocks
    · exact ⟨_, _, mem_singleton.1 isLast ▸ reads⟩

theorem exists_holding (reads : ∀ block ∈ blocks, ∃ first rest, Reads block first rest) :
    ∃ texts, Holding blocks texts := by
  induction blocks using List.reverseRecOn with
  | nil => exact ⟨[], .nil⟩
  | append_singleton before block ih =>
    have ⟨first, others, isRead⟩ := reads block (mem_append_right _ mem_cons_self)
    have ⟨texts, holding⟩ := ih fun other member =>
      reads other (mem_append_left _ member)
    exact ⟨_, holding.next isRead⟩

variable (holding : Holding blocks texts)

include holding

theorem Holding.whole : ∀ line ∈ texts, '\n' ∉ line := by
  induction holding with
  | nil => exact fun _ member => nomatch member
  | next holding reads ih =>
    intro line member
    rcases mem_append.1 member with inTexts | inLast
    · exact ih line inTexts
    · exact reads.whole line inLast

theorem Holding.join :
    String.join (blocks.map Block.text) = String.ofList (ended texts) := by
  apply String.ext
  rw [String.toList_join, String.toList_ofList]
  induction holding with
  | nil => rfl
  | next holding reads ih =>
    rw [map_append, flatMap_append, ih, ended_append, ← reads.text]
    simp

theorem holding_addLine {line : List Char} (whole : '\n' ∉ line) :
    Holding (addLine blocks line) (texts ++ [line]) := by
  have alone : Reads ⟨entryTime line, String.ofList line ++ "\n"⟩ line [] := by
    refine ⟨?_, rfl, fun _ member => (nomatch member), ?_⟩
    · simp [ended]
    · intro other member
      rwa [mem_singleton.1 member]
  rw [addLine_eq_behind]
  by_cases timed : (entryTime line).isSome = true
  · rw [@behind_timed ⟨entryTime line, String.ofList line ++ "\n"⟩ timed]
    exact holding.next alone
  · have headless : entryTime line = none := by simpa using timed
    cases holding with
    | nil =>
      rw [behind_nil]
      exact Holding.nil.next alone
    | next holding reads =>
      rename_i before others last first rest
      rw [@behind_last ⟨entryTime line, String.ofList line ++ "\n"⟩ headless, append_assoc]
      apply holding.next
      refine ⟨?_, reads.time, ?_, ?_⟩
      · simp [reads.text, ended]
      · intro other member
        rcases mem_append.1 member with old | new
        · exact reads.others other old
        · rw [mem_singleton.1 new]
          exact headless
      · intro other member
        have split : other ∈ (first :: rest) ++ [line] := member
        rcases mem_append.1 split with old | new
        · exact reads.whole other old
        · rwa [mem_singleton.1 new]

theorem holding_foldl_addLine {added : List (List Char)} (whole : ∀ line ∈ added, '\n' ∉ line) :
    Holding (added.foldl addLine blocks) (texts ++ added) := by
  induction added generalizing blocks texts with
  | nil => rwa [append_nil]
  | cons line rest ih =>
    rw [foldl_cons, append_cons]
    exact ih (holding_addLine holding (whole line mem_cons_self))
      fun other member => whole other (mem_cons_of_mem _ member)

omit holding

theorem holding_splitBlocks (body : String) : Holding (splitBlocks body) (lines body) :=
  holding_foldl_addLine .nil (not_mem_lines body)

theorem led_behind (led : Led blocks) (block : Block)
    (follows : blocks = [] ∨ block.time.isSome = true) : Led (blocks ++ [block]) := by
  cases blocks with
  | nil => exact fun _ member => nomatch member
  | cons first rest =>
    have timed : block.time.isSome = true := follows.resolve_left (cons_ne_nil _ _)
    intro other member
    rcases mem_append.1 member with inRest | isLast
    · exact led other inRest
    · rwa [mem_singleton.1 isLast]

theorem led_splitBlocks (body : String) : Led (splitBlocks body) := by
  have run : ∀ (added : List (List Char)) (blocks : List Block), Led blocks →
      Led (added.foldl addLine blocks) := by
    intro added
    induction added with
    | nil => exact fun _ led => led
    | cons line rest ih =>
      intro blocks led
      apply ih
      rw [addLine_eq_behind]
      by_cases timed : (entryTime line).isSome = true
      · rw [@behind_timed ⟨entryTime line, String.ofList line ++ "\n"⟩ timed]
        exact led_behind led _ (.inr timed)
      · have headless : entryTime line = none := by simpa using timed
        rcases eq_nil_or_concat' blocks with isEmpty | ⟨before, last, isBlocks⟩
        · rw [isEmpty, behind_nil]
          exact fun _ member => nomatch member
        · rw [isBlocks] at led ⊢
          rw [@behind_last ⟨entryTime line, String.ofList line ++ "\n"⟩ headless]
          cases before with
          | nil => exact fun _ member => nomatch member
          | cons first others =>
            intro block member
            rcases mem_append.1 member with inOthers | isLast
            · exact led block (mem_append_left _ inOthers)
            · rw [mem_singleton.1 isLast]
              exact led last (mem_append_right _ mem_cons_self)
  exact run (lines body) [] fun _ member => nomatch member

/-! ### Carriage returns -/

def Block.Bare (block : Block) : Prop := ¬['\r', '\n'] <:+: block.text.toList

instance (block : Block) : Decidable block.Bare :=
  inferInstanceAs (Decidable ¬['\r', '\n'] <:+: block.text.toList)

theorem return_infix_ended_iff (whole : ∀ line ∈ texts, '\n' ∉ line) :
    ['\r', '\n'] <:+: ended texts ↔ ∃ line ∈ texts, line.getLast? = some '\r' := by
  constructor
  · intro inside
    induction texts with
    | nil => exact nomatch infix_nil.1 inside
    | cons line rest ih =>
      have ⟨before, after, same⟩ := inside
      have cut : before ++ '\r' :: '\n' :: after = line ++ '\n' :: ended rest := by
        simpa [ended] using same
      rcases append_eq_append_iff.1 cut with ⟨middle, isLine, isRest⟩ | ⟨middle, isBefore, isRest⟩
      · match middle with
        | [] => cases isRest
        | [character] =>
          have isReturn : '\r' = character := (List.cons.inj isRest).1
          refine ⟨line, mem_cons_self, ?_⟩
          rw [isLine, ← isReturn, getLast?_concat]
        | first :: second :: others =>
          have isFeed : '\n' = second := (List.cons.inj (List.cons.inj isRest).2).1
          apply absurd _ (whole line mem_cons_self)
          rw [isLine, ← isFeed]
          simp
      · match middle with
        | [] => cases isRest
        | first :: others =>
          have isLater : ended rest = others ++ '\r' :: '\n' :: after := (List.cons.inj isRest).2
          have ⟨found, member, isReturn⟩ := ih
            (fun other member => whole other (mem_cons_of_mem _ member))
            ⟨others, after, by rw [isLater]; simp⟩
          exact ⟨found, mem_cons_of_mem _ member, isReturn⟩
  · rintro ⟨line, member, isReturn⟩
    have ⟨before, after, isTexts⟩ := append_of_mem member
    have ⟨start, isLine⟩ := getLast?_eq_some_iff.1 isReturn
    refine ⟨ended before ++ start, ended after, ?_⟩
    rw [isTexts, isLine]
    simp [ended]

theorem Reads.bare_iff {first : List Char} (reads : Reads block first rest) :
    block.Bare ↔ ∀ line ∈ first :: rest, line.getLast? ≠ some '\r' := by
  unfold Block.Bare
  rw [reads.text, return_infix_ended_iff reads.whole]
  simp only [not_exists, not_and, ne_eq]

theorem Holding.bare_iff (holding : Holding blocks texts) :
    (∀ line ∈ texts, line.getLast? ≠ some '\r') ↔ ∀ block ∈ blocks, block.Bare := by
  induction holding with
  | nil => exact ⟨fun _ _ member => (nomatch member), fun _ _ member => (nomatch member)⟩
  | next holding reads ih =>
    rw [forall_mem_append, forall_mem_append, ih, forall_mem_singleton, reads.bare_iff]

theorem splitBlocks_join (holding : Holding blocks texts) (bare : ∀ block ∈ blocks, block.Bare) :
    splitBlocks (String.join (blocks.map Block.text)) = blocks.foldl behind [] := by
  unfold splitBlocks
  rw [holding.join, lines_ended holding.whole,
    map_withoutReturn_iff.2 (holding.bare_iff.2 bare), foldl_addLine_holding holding]

/-- Joined blocks are split again, if no line ends in a carriage return. -/
theorem join_splitBlocks_iff (holding : Holding blocks texts) :
    String.join ((splitBlocks (String.join (blocks.map Block.text))).map Block.text)
        = String.join (blocks.map Block.text)
      ↔ ∀ block ∈ blocks, block.Bare := by
  rw [(holding_splitBlocks _).join, holding.join, lines_ended holding.whole, ← holding.bare_iff,
    ← map_withoutReturn_iff]
  constructor
  · intro same
    have texts' : ∀ line ∈ texts.map withoutReturn, '\n' ∉ line := by
      intro line member
      obtain ⟨source, isSource, rfl⟩ := mem_map.1 member
      exact not_mem_withoutReturn (holding.whole source isSource)
    exact ended_injective texts' holding.whole (String.ofList_injective same)
  · exact fun same => by rw [same]

/-! ### What the fold adds -/

def Fresh (blocks added : List Block) (block : Block) : Prop :=
  ∃ earlier later, added = earlier ++ block :: later ∧ ¬Holds (blocks ++ earlier) block

theorem holds_foldl_iff :
    Holds (added.foldl foldBlock blocks) block ↔ Holds (blocks ++ added) block := by
  have folds := folds_page blocks added
  constructor
  · rintro ⟨kept, member, same⟩
    exact ⟨kept, mem_append.2 (folds.source kept member), same⟩
  · rintro ⟨kept, member, same⟩
    rcases mem_append.1 member with old | new
    · exact ⟨kept, folds.sublist.subset old, same⟩
    · have ⟨other, isOther, sameOther⟩ := folds.holds kept new
      exact ⟨other, isOther, sameOther.trans same⟩

theorem foldBlock_of_holds (holds : Holds blocks block) : foldBlock blocks block = blocks := by
  unfold foldBlock
  rw [if_pos (by simpa [Holds] using holds)]

theorem foldBlock_of_new (new : ¬Holds blocks block) : foldBlock blocks block
      = match block.time with
        | some time => blocks.insertIdx (placeOf blocks time) block
        | none => blocks ++ [block] := by
  unfold foldBlock
  exact if_neg (by simpa [Holds] using new)

theorem foldl_foldBlock_of_holds (holds : ∀ block ∈ added, Holds blocks block) :
    added.foldl foldBlock blocks = blocks := by
  induction added with
  | nil => rfl
  | cons block rest ih =>
    rw [foldl_cons, foldBlock_of_holds (holds block mem_cons_self)]
    exact ih fun other member => holds other (mem_cons_of_mem _ member)

theorem foldBlock_entry (new : ¬Holds blocks block) (timed : block.time.isSome = true) :
    ∃ before after, blocks = before ++ after ∧ foldBlock blocks block = before ++ block :: after
      ∧ (before = [] → ∀ other ∈ after.head?, other.time.isSome = true) := by
  have ⟨time, isTime⟩ := Option.isSome_iff_exists.1 timed
  rw [foldBlock_of_new new, isTime]
  simp only [placeOf]
  cases found : rposition (fun other => other.time.any fun known => known ≤ time) blocks with
  | some place =>
    obtain ⟨before, last, after, rfl, rfl, _, _⟩ := rposition_eq_some found
    refine ⟨before ++ [last], after, by simp, ?_, by simp⟩
    have inserted := insertIdx_append (before ++ [last]) after block
    rw [length_append, length_singleton, append_assoc, singleton_append] at inserted
    exact inserted
  | none =>
    have ⟨before, after, isBlocks, isPlace, _⟩ :=
      @findIdx_split _ (fun other : Block => other.time.isSome) blocks
    refine ⟨before, after, isBlocks, ?_, ?_⟩
    · show blocks.insertIdx (blocks.findIdx fun other => other.time.isSome) block = _
      rw [← isPlace, isBlocks, insertIdx_append]
    · intro isEmpty other isHead
      rw [isEmpty, length_nil] at isPlace
      rw [isEmpty, nil_append] at isBlocks
      rw [← isBlocks] at isHead
      cases blocks with
      | nil => cases isHead
      | cons first rest =>
        rw [findIdx_cons] at isPlace
        cases isHead
        by_contra untimed
        rw [Bool.eq_false_iff.2 untimed, cond_false] at isPlace
        omega

theorem mem_foldBlock_iff {other : Block} :
    other ∈ foldBlock blocks block ↔ other ∈ blocks ∨ other = block ∧ ¬Holds blocks block := by
  by_cases holds : Holds blocks block
  · rw [foldBlock_of_holds holds]
    simp [holds]
  · constructor
    · intro member
      exact (mem_foldBlock member).imp_right fun same => ⟨same, holds⟩
    · rintro (old | ⟨rfl, -⟩)
      · exact (sublist_foldBlock blocks block).subset old
      · by_cases timed : other.time.isSome = true
        · obtain ⟨before, after, -, isFolded, -⟩ := foldBlock_entry holds timed
          rw [isFolded]
          exact mem_append_right _ mem_cons_self
        · have headless : other.time = none := by simpa using timed
          rw [foldBlock_of_new holds, headless]
          exact mem_append_right _ mem_cons_self

theorem mem_foldl_iff {blocks added : List Block} {block : Block} :
    block ∈ added.foldl foldBlock blocks ↔ block ∈ blocks ∨ Fresh blocks added block := by
  induction added using List.reverseRecOn with
  | nil => simp [Fresh]
  | append_singleton before last ih =>
    rw [foldl_append, foldl_cons, foldl_nil, mem_foldBlock_iff, ih, holds_foldl_iff, or_assoc]
    apply or_congr_right
    constructor
    · rintro (⟨earlier, later, isBefore, fresh⟩ | ⟨rfl, fresh⟩)
      · exact ⟨earlier, later ++ [last], by rw [isBefore]; simp, fresh⟩
      · exact ⟨before, [], rfl, fresh⟩
    · rintro ⟨earlier, later, isAdded, fresh⟩
      rcases eq_nil_or_concat' later with isEmpty | ⟨start, final, isLater⟩
      · rw [isEmpty] at isAdded
        obtain ⟨rfl, isLast⟩ := append_inj' isAdded rfl
        obtain rfl := (List.cons.inj isLast).1
        exact .inr ⟨rfl, fresh⟩
      · rw [isLater, ← cons_append, ← append_assoc] at isAdded
        obtain ⟨isBefore, -⟩ := append_inj' isAdded rfl
        exact .inl ⟨earlier, start, isBefore, fresh⟩

/-! ### Headless blocks -/

variable {before after : List Block}

theorem led_insert (led : Led (before ++ after)) (timed : block.time.isSome = true)
    (notFirst : before = [] → ∀ other ∈ after.head?, other.time.isSome = true) :
    Led (before ++ block :: after) := by
  cases before with
  | nil =>
    intro other member
    have inAfter : other ∈ after := member
    cases after with
    | nil => cases inAfter
    | cons first rest =>
      rcases mem_cons.1 inAfter with isFirst | inRest
      · rw [isFirst]
        exact notFirst rfl first rfl
      · exact led other inRest
  | cons first rest =>
    intro other member
    rcases mem_append.1 member with inRest | inLater
    · exact led other (mem_append_left _ inRest)
    · rcases mem_cons.1 inLater with isBlock | inAfter
      · rwa [isBlock]
      · exact led other (mem_append_right _ inAfter)

theorem led_foldBlock (led : Led blocks) (timed : block.time.isSome = true) :
    Led (foldBlock blocks block) := by
  by_cases holds : Holds blocks block
  · rwa [foldBlock_of_holds holds]
  · have ⟨before, after, isBlocks, isFolded, notFirst⟩ := foldBlock_entry holds timed
    rw [isFolded]
    exact led_insert (isBlocks ▸ led) timed notFirst

theorem led_foldl_foldBlock (led : Led blocks) (timed : ∀ block ∈ added, block.time.isSome = true) :
    Led (added.foldl foldBlock blocks) := by
  induction added generalizing blocks with
  | nil => exact led
  | cons block rest ih =>
    rw [foldl_cons]
    exact ih (led_foldBlock led (timed block mem_cons_self))
      fun other member => timed other (mem_cons_of_mem _ member)

structure Stranded (run : Block) (blocks before after : List Block) : Prop where
  split : blocks = before ++ run :: after
  nonempty : before ≠ []
  led : Led before
  timed : ∀ block ∈ after, block.time.isSome = true
  other : ∀ block ∈ before ++ after, trimEnd block.text ≠ trimEnd run.text

theorem Stranded.step {run : Block} (stranded : Stranded run blocks before after)
    (timed : block.time.isSome = true) :
    ∃ before after, Stranded run (foldBlock blocks block) before after := by
  by_cases holds : Holds blocks block
  · exact ⟨before, after, by rwa [foldBlock_of_holds holds]⟩
  · have different : trimEnd block.text ≠ trimEnd run.text := by
      intro same
      exact holds ⟨run, by rw [stranded.split]; simp, same.symm⟩
    have ⟨start, rest, isBlocks, isFolded, notFirst⟩ := foldBlock_entry holds timed
    rw [isFolded]
    have cut : before ++ run :: after = start ++ rest := by rw [← stranded.split, isBlocks]
    rcases append_eq_append_iff.1 cut with ⟨middle, isStart, isRest⟩ | ⟨middle, isBefore, isRest⟩
    · match middle with
      | [] =>
        refine ⟨before ++ [block], after, ?_, by simp, ?_, stranded.timed, ?_⟩
        · rw [isStart, append_nil, ← nil_append rest, ← isRest, append_assoc]
          rfl
        · exact led_behind stranded.led block (.inr timed)
        · intro other member
          rw [append_assoc, mem_append] at member
          rcases member with inBefore | inLater
          · exact stranded.other other (mem_append_left _ inBefore)
          · rcases mem_cons.1 inLater with isBlock | inAfter
            · rwa [isBlock]
            · exact stranded.other other (mem_append_right _ inAfter)
      | first :: others =>
        have ⟨isRun, isJoined⟩ := List.cons.inj isRest
        have isAfter : after = others ++ rest := isJoined
        have inserted : ∀ other ∈ others ++ block :: rest, other ∈ after ∨ other = block := by
          intro other member
          rw [isAfter, mem_append]
          rcases mem_append.1 member with inOthers | inLater
          · exact .inl (.inl inOthers)
          · exact (mem_cons.1 inLater).symm.imp_left .inr
        refine ⟨before, others ++ block :: rest, ?_, stranded.nonempty, stranded.led, ?_, ?_⟩
        · rw [isStart, isRun, append_assoc]
          rfl
        · intro other member
          rcases inserted other member with inAfter | isBlock
          · exact stranded.timed other inAfter
          · rwa [isBlock]
        · intro other member
          rcases mem_append.1 member with inBefore | inLater
          · exact stranded.other other (mem_append_left _ inBefore)
          · rcases inserted other inLater with inAfter | isBlock
            · exact stranded.other other (mem_append_right _ inAfter)
            · rwa [isBlock]
    · refine ⟨start ++ block :: middle, after, ?_, by simp, ?_, stranded.timed, ?_⟩
      · rw [isRest, append_assoc]
        rfl
      · apply led_insert (isBefore ▸ stranded.led) timed
        intro isEmpty other isHead
        apply notFirst isEmpty
        rw [isRest, head?_append, isHead]
        rfl
      · intro other member
        rw [append_assoc, mem_append] at member
        rcases member with inStart | inLater
        · exact stranded.other other (by rw [isBefore]; simp [inStart])
        · rcases mem_cons.1 inLater with isBlock | inRest
          · rwa [isBlock]
          · apply stranded.other other
            rw [isBefore, append_assoc]
            exact mem_append_right _ inRest

theorem Stranded.run {run : Block} (stranded : Stranded run blocks before after)
    (timed : ∀ block ∈ added, block.time.isSome = true) :
    ∃ before after, Stranded run (added.foldl foldBlock blocks) before after := by
  induction added generalizing blocks before after with
  | nil => exact ⟨before, after, stranded⟩
  | cons block rest ih =>
    have ⟨before, after, stranded⟩ := stranded.step (timed block mem_cons_self)
    exact ih stranded fun other member =>
      timed other (mem_cons_of_mem _ member)

theorem trimEnd_of_append {first second : String} (nonempty : first ≠ "")
    (same : trimEnd (first ++ second) = trimEnd second) : trimEnd first = trimEnd second := by
  have chars := congrArg (fun text => text.toList.reverse) same
  simp only [trimEnd, String.toList_ofList, reverse_reverse, String.toList_append,
    reverse_append, dropWhile_append] at chars
  unfold trimEnd
  split_ifs at chars with blank
  · rw [chars]
  · have lengths := congrArg List.length chars
    rw [length_append] at lengths
    have isEmpty : first.toList.reverse = [] := length_eq_zero_iff.1 (by omega)
    rw [reverse_eq_nil_iff] at isEmpty
    exact absurd (String.toList_eq_nil_iff.1 isEmpty) nonempty

theorem Stranded.not_holds {run : Block} (stranded : Stranded run blocks before after)
    (headless : run.time = none) (nonblank : ∀ block ∈ before, block.text ≠ "") :
    ¬Holds (blocks.foldl behind []) run := by
  have ⟨start, last, isBefore⟩ := (eq_nil_or_concat' before).resolve_left stranded.nonempty
  have isSplit : blocks.foldl behind []
      = start ++ [{ last with text := last.text ++ run.text }] ++ after := by
    rw [stranded.split, foldl_append, stranded.led.foldl_behind, foldl_cons, isBefore,
      behind_last headless, foldl_behind_timed stranded.timed]
  have inBefore : ∀ block ∈ start ++ [last], trimEnd block.text ≠ trimEnd run.text := by
    intro block member
    exact stranded.other block (mem_append_left _ (isBefore ▸ member))
  rw [isSplit]
  rintro ⟨kept, member, same⟩
  rcases mem_append.1 member with inFront | inAfter
  · rcases mem_append.1 inFront with inStart | isLast
    · exact inBefore kept (mem_append_left _ inStart) same
    · rw [mem_singleton.1 isLast] at same
      have lastIn : last ∈ start ++ [last] := mem_append_right _ mem_cons_self
      exact inBefore last lastIn (trimEnd_of_append (nonblank last (isBefore ▸ lastIn)) same)
  · exact stranded.other kept (mem_append_right _ inAfter) same

/-! ### Folding again -/

/-- No line ends in a carriage return, and no headless block goes behind another. -/
structure Settled (winner loser : String) : Prop where
  kept : ∀ block ∈ splitBlocks winner, block.Bare
  added : ∀ block, Fresh (splitBlocks winner) (splitBlocks loser) block → block.Bare
  timed : winner ≠ "" → ∀ block, Fresh (splitBlocks winner) (splitBlocks loser) block →
    block.time.isSome = true

theorem reads_foldBlocks (winner loser : String) :
    ∀ block ∈ foldBlocks winner [loser], ∃ first rest, Reads block first rest := by
  intro block member
  have folds := folds_page (splitBlocks winner) (splitBlocks loser)
  rcases folds.source block member with inWinner | inLoser
  · exact (holding_splitBlocks winner).reads block inWinner
  · exact (holding_splitBlocks loser).reads block inLoser

theorem Reads.nonempty {first : List Char} (reads : Reads block first rest) : block.text ≠ "" := by
  intro isEmpty
  have chars := reads.text
  rw [isEmpty] at chars
  simp [ended] at chars

theorem lines_eq_nil {text : String} (none : lines text = []) : text = "" := by
  have ⟨noEnded, noLast⟩ := append_eq_nil_iff.1 none
  have single := congrArg List.length (map_eq_nil_iff.1 noEnded)
  rw [length_dropLast, length_nil] at single
  have joined := @intercalate_splitOn Char text.toList _ _ '\n'
  match parts : text.toList.splitOn '\n' with
  | [] => exact absurd parts (splitOn_ne_nil _ _)
  | [part] =>
    rw [parts] at noLast joined
    have isEmpty : part = [] := by simpa using noLast
    rw [isEmpty] at joined
    exact String.toList_eq_nil_iff.1 joined.symm
  | first :: second :: rest =>
    rw [parts, length_cons, length_cons] at single
    omega

theorem splitBlocks_eq_nil {body : String} (none : splitBlocks body = []) : body = "" := by
  have holding := holding_splitBlocks body
  rw [none] at holding
  apply lines_eq_nil
  generalize isTexts : lines body = texts at holding
  generalize isBlocks : ([] : List Block) = blocks at holding
  cases holding with
  | nil => rfl
  | next holding reads => exact absurd isBlocks (by simp)

theorem bare_foldBlocks_iff (winner loser : String) :
    (∀ block ∈ foldBlocks winner [loser], block.Bare) ↔ (∀ block ∈ splitBlocks winner, block.Bare)
        ∧ ∀ block, Fresh (splitBlocks winner) (splitBlocks loser) block → block.Bare := by
  have member : ∀ block, block ∈ foldBlocks winner [loser] ↔ _ := fun block =>
    @mem_foldl_iff (splitBlocks winner) (splitBlocks loser) block
  simp only [member, or_imp, forall_and]

theorem led_foldBlocks {winner loser : String}
    (timed : winner ≠ "" → ∀ block, Fresh (splitBlocks winner) (splitBlocks loser) block →
      block.time.isSome = true) :
    Led (foldBlocks winner [loser]) := by
  show Led ((splitBlocks loser).foldl foldBlock (splitBlocks winner))
  have led := led_splitBlocks loser
  cases isLoser : splitBlocks loser with
  | nil => exact led_splitBlocks winner
  | cons first rest =>
    rw [isLoser] at led
    rw [foldl_cons]
    apply led_foldl_foldBlock _ led
    by_cases isEntry : first.time.isSome = true
    · exact led_foldBlock (led_splitBlocks winner) isEntry
    · by_cases holds : Holds (splitBlocks winner) first
      · rw [foldBlock_of_holds holds]
        exact led_splitBlocks winner
      · have isEmpty : winner = "" := by
          by_contra nonempty
          apply isEntry
          exact timed nonempty first ⟨[], rest, isLoser, by rwa [append_nil]⟩
        have headless : first.time = none := by simpa using isEntry
        rw [foldBlock_of_new holds, headless, isEmpty]
        exact fun _ member => nomatch member

theorem stranded_foldBlocks {winner loser : String} {run : Block} (nonempty : winner ≠ "")
    (fresh : Fresh (splitBlocks winner) (splitBlocks loser) run) (headless : run.time = none) :
    ∃ before after, Stranded run (foldBlocks winner [loser]) before after := by
  show ∃ before after,
    Stranded run ((splitBlocks loser).foldl foldBlock (splitBlocks winner)) before after
  have ⟨earlier, later, isLoser, new⟩ := fresh
  have led := led_splitBlocks loser
  rw [isLoser] at led ⊢
  cases earlier with
  | cons first rest =>
    have isEntry := led run (mem_append_right _ mem_cons_self)
    rw [headless] at isEntry
    cases isEntry
  | nil =>
    rw [append_nil] at new
    rw [nil_append, foldl_cons, foldBlock_of_new new, headless]
    have stranded : Stranded run (splitBlocks winner ++ [run]) (splitBlocks winner) [] := by
      refine ⟨rfl, fun none => nonempty (splitBlocks_eq_nil none), led_splitBlocks winner,
        fun _ member => (nomatch member), ?_⟩
      intro block member same
      rw [append_nil] at member
      exact new ⟨block, member, same⟩
    exact stranded.run led

theorem count_ended (whole : ∀ line ∈ texts, '\n' ∉ line) :
    (ended texts).count '\n' = texts.length := by
  induction texts with
  | nil => rfl
  | cons line rest ih =>
    have isEnded : ended (line :: rest) = line ++ '\n' :: ended rest := by simp [ended]
    rw [isEnded, count_append, count_cons_self, length_cons,
      count_eq_zero.2 (whole line mem_cons_self),
      ih fun other member => whole other (mem_cons_of_mem _ member)]
    omega

theorem Holding.length_eq (holding : Holding blocks texts) :
    texts.length = (blocks.map fun block => block.text.toList.count '\n').sum := by
  induction holding with
  | nil => rfl
  | next holding reads ih =>
    rw [length_append, ih, map_append, sum_append,
      map_singleton, sum_singleton, reads.text, count_ended reads.whole]

theorem eq_of_sublist_of_lines {more : List Block} {others : List (List Char)}
    (sublist : blocks.Sublist more) (holding : Holding blocks texts)
    (holding' : Holding more others) (same : texts.length = others.length) : blocks = more := by
  have ⟨added, isPerm⟩ := sublist.exists_perm_append
  have sums := (isPerm.map fun block => block.text.toList.count '\n').sum_nat
  rw [map_append, sum_append, ← holding.length_eq, ← holding'.length_eq, same] at sums
  cases added with
  | nil =>
    apply sublist.eq_of_length
    rw [isPerm.length_eq, append_nil]
  | cons block rest =>
    have member : block ∈ more := isPerm.mem_iff.2 (mem_append_right _ mem_cons_self)
    have ⟨first, lines, reads⟩ := holding'.reads block member
    have positive : 0 < block.text.toList.count '\n' := by
      rw [reads.text, count_ended reads.whole]
      exact Nat.succ_pos _
    rw [map_cons, sum_cons] at sums
    omega

/-- Folding a page in once more changes nothing exactly when the first fold has settled it. -/
theorem interleave_again_iff (winner loser : String) :
    interleave (interleave winner [loser]) [loser] = interleave winner [loser]
      ↔ Settled winner loser := by
  have ⟨texts, holding⟩ := exists_holding (reads_foldBlocks winner loser)
  have folds := folds_page (splitBlocks winner) (splitBlocks loser)
  constructor
  · intro same
    have ⟨others, holding'⟩ :=
      exists_holding (reads_foldBlocks (interleave winner [loser]) loser)
    have again := folds_page (splitBlocks (interleave winner [loser])) (splitBlocks loser)
    -- The second fold adds no line, so it adds no block.
    have isTexts : others = texts := by
      apply ended_injective holding'.whole holding.whole
      apply String.ofList_injective
      rw [← holding'.join, ← holding.join]
      exact same
    have isSplit : splitBlocks (interleave winner [loser])
        = foldBlocks (interleave winner [loser]) [loser] := by
      apply eq_of_sublist_of_lines again.sublist (holding_splitBlocks _) holding'
      rw [isTexts, interleave, holding.join, lines_ended holding.whole, length_map]
    have bare : ∀ block ∈ foldBlocks winner [loser], block.Bare := by
      apply (join_splitBlocks_iff holding).1
      show String.join ((splitBlocks (interleave winner [loser])).map Block.text) = _
      rw [isSplit]
      exact same
    have ⟨kept, added⟩ := (bare_foldBlocks_iff winner loser).1 bare
    refine ⟨kept, added, fun nonempty run fresh => ?_⟩
    by_contra untimed
    have headless : run.time = none := by simpa using untimed
    have ⟨before, after, stranded⟩ := stranded_foldBlocks nonempty fresh headless
    have isApart := stranded.not_holds headless fun block member => by
      have ⟨first, rest, reads⟩ := reads_foldBlocks winner loser block
        (by rw [stranded.split]; exact mem_append_left _ member)
      exact reads.nonempty
    rw [← splitBlocks_join holding bare] at isApart
    apply isApart
    show Holds (splitBlocks (interleave winner [loser])) run
    rw [isSplit]
    obtain ⟨earlier, later, isLoser, -⟩ := fresh
    exact again.holds run (by rw [isLoser]; simp)
  · intro settled
    have bare := (bare_foldBlocks_iff winner loser).2 ⟨settled.kept, settled.added⟩
    have isSplit : splitBlocks (interleave winner [loser]) = foldBlocks winner [loser] := by
      rw [interleave, splitBlocks_join holding bare, (led_foldBlocks settled.timed).foldl_behind]
    have again : foldBlocks (interleave winner [loser]) [loser] = foldBlocks winner [loser] := by
      show (splitBlocks loser).foldl foldBlock (splitBlocks (interleave winner [loser])) = _
      rw [isSplit]
      exact foldl_foldBlock_of_holds folds.holds
    rw [interleave, again]
    rfl

/-- A note without a time goes behind an entry, is read as part of it, and is put there once more. -/
theorem headless_note_again : interleave (interleave "- 09:00 — a\n" ["note\n"]) ["note\n"]
      ≠ interleave "- 09:00 — a\n" ["note\n"] := by
  decide

end Clepsydra.Sync
