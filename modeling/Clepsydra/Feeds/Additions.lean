import Clepsydra.Feeds.RenderedLine
import Clepsydra.Feeds.WrittenLines
import Clepsydra.Library.Fallible

/-!
Owns: the feeds that a batch of additions gives.

Proves: exactly when they are those the manifest had, followed by one for each addition.
-/

namespace Clepsydra.Feeds

open Library Library.Pieces List Option
open Library.Fallible (of_bind_ok)
open Vault (isWhitespace)

/-! ### What is requested -/

def FeedAddition.groupName (addition : FeedAddition) : List Char := trim addition.group

def FeedAddition.title (addition : FeedAddition) : Option (List Char) :=
  trimmedTitle addition.titleOverride

def FeedAddition.itemTags (addition : FeedAddition) : List (List Char) :=
  match normalizeInputTags addition.tags with
  | .ok tags => tags
  | .error _ => []

def FeedAddition.item (addition : FeedAddition) : List Char :=
  renderItem addition.url addition.title addition.itemTags

structure Acceptable (webUrl : List Char → Bool) (addition : FeedAddition) : Prop where
  named : addition.groupName ≠ []
  oneLineGroup : isSingleLine addition.groupName = true
  isUrl : isHttpUrl webUrl addition.url = true
  oneLineTitle : ∀ title ∈ addition.title, isSingleLine title = true
  areTags : normalizeInputTags addition.tags = .ok addition.itemTags

theorem validateGroup_eq_ok {group checked : List Char} (isOk : validateGroup group = .ok checked) :
    checked = trim group ∧ trim group ≠ [] ∧ isSingleLine (trim group) = true := by
  unfold validateGroup at isOk
  split_ifs at isOk with passes
  exact ⟨(Except.ok.inj isOk).symm, passes⟩

theorem validateTitle_eq_ok {title checked : Option (List Char)}
    (isOk : validateTitle title = .ok checked) :
    checked = trimmedTitle title ∧ ∀ text ∈ trimmedTitle title, isSingleLine text = true := by
  unfold validateTitle at isOk
  split_ifs at isOk with passes
  refine ⟨(Except.ok.inj isOk).symm, fun text isText => ?_⟩
  rw [mem_def.1 isText] at passes
  exact passes

theorem validateUrl_eq_ok {webUrl : List Char → Bool} {url : List Char}
    (isOk : validateUrl webUrl url = .ok ()) : isHttpUrl webUrl url = true := by
  unfold validateUrl at isOk
  split_ifs at isOk with passes
  exact passes

theorem itemTags_of_ok {addition : FeedAddition} {tags : List (List Char)}
    (isOk : normalizeInputTags addition.tags = .ok tags) : addition.itemTags = tags := by
  rw [FeedAddition.itemTags, isOk]

theorem groupAdditions_eq_ok {webUrl : List Char → Bool} {additions : List FeedAddition}
    {grouped result : List (List Char × List (List Char))}
    (isOk : groupAdditions webUrl grouped additions = .ok result) :
    (∀ addition ∈ additions, Acceptable webUrl addition) ∧ result = additions.foldl
        (fun grouped addition => placeItem addition.groupName addition.item grouped) grouped := by
  induction additions generalizing grouped with
  | nil => exact ⟨nofun, (Except.ok.inj isOk).symm⟩
  | cons addition rest ih =>
    rw [groupAdditions] at isOk
    have ⟨group, isGroup, isOk⟩ := of_bind_ok isOk
    have ⟨checked, isUrl, isOk⟩ := of_bind_ok isOk
    have ⟨title, isTitle, isOk⟩ := of_bind_ok isOk
    have ⟨tags, areTags, isOk⟩ := of_bind_ok isOk
    obtain ⟨rfl, named, oneLineGroup⟩ := validateGroup_eq_ok isGroup
    obtain ⟨rfl, oneLineTitle⟩ := validateTitle_eq_ok isTitle
    have isTags := itemTags_of_ok areTags
    have ⟨acceptable, isResult⟩ := ih isOk
    rw [← isTags] at isResult areTags
    exact ⟨forall_mem_cons.2
      ⟨⟨named, oneLineGroup, validateUrl_eq_ok isUrl, oneLineTitle, areTags⟩, acceptable⟩,
      isResult⟩

/-! ### Tags as they are given -/

theorem isTag_bareTag {tag : List Char} (some : bareTag tag ≠ [])
    (solid : ¬(bareTag tag).any isWhitespace = true) : IsTag (bareTag tag) := by
  refine ⟨some, fun character among => ?_, fun isHash => ?_⟩
  · rw [Bool.not_eq_true] at solid
    exact (Bool.not_eq_true _).mp (List.any_eq_false.1 solid character among)
  · have stops := @head?_dropWhile_not _ (fun character : Char => character = '#') (trim tag)
    rw [show (trim tag).dropWhile (fun character : Char => character = '#') = bareTag tag from rfl,
      isHash] at stops
    exact absurd stops (by decide)

theorem normalizeTagsFrom_eq_ok {tags normalized result : List (List Char)}
    (isOk : normalizeTagsFrom normalized tags = .ok result)
    (areTags : ∀ tag ∈ normalized, IsTag tag) (nodup : normalized.Nodup) :
    (∀ tag ∈ result, IsTag tag) ∧ result.Nodup := by
  induction tags generalizing normalized with
  | nil =>
    rw [← Except.ok.inj isOk]
    exact ⟨areTags, nodup⟩
  | cons tag rest ih =>
    rw [normalizeTagsFrom] at isOk
    split_ifs at isOk with invalid
    rw [not_or] at invalid
    have isTag := isTag_bareTag invalid.1 invalid.2
    apply ih isOk
    · rw [pushUnique]
      split_ifs
      · exact areTags
      · exact fun other among => (mem_append.1 among).elim (areTags other) fun isLast =>
          (mem_singleton.1 isLast) ▸ isTag
    · rw [pushUnique]
      split_ifs with known
      · exact nodup
      · have alone : [bareTag tag].Nodup := nodup_cons.2 ⟨not_mem_nil, nodup_nil⟩
        exact nodup_append.2 ⟨nodup, alone, fun other among last isLast same =>
          known (mem_singleton.1 isLast ▸ same ▸ among)⟩

theorem Acceptable.requested {webUrl : List Char → Bool} {addition : FeedAddition}
    (acceptable : Acceptable webUrl addition) :
    Requested webUrl addition.url addition.itemTags := by
  have ⟨areTags, nodup⟩ := normalizeTagsFrom_eq_ok acceptable.areTags nofun nodup_nil
  exact ⟨acceptable.isUrl, areTags, nodup⟩

/-! ### Groups -/

section Groups

variable {α β : Type}

def members (grouped : List (List Char × List α)) : List (List Char × α) :=
  grouped.flatMap fun group => group.2.map (group.1, ·)

theorem map_placeItem (f : α → β) (group : List Char) (item : α)
    (grouped : List (List Char × List α)) :
    (placeItem group item grouped).map (Prod.map id (List.map f))
      = placeItem group (f item) (grouped.map (Prod.map id (List.map f))) := by
  induction grouped with
  | nil => rfl
  | cons first rest ih =>
    have ⟨other, items⟩ := first
    rw [placeItem, map_cons]
    show _ = placeItem group (f item) ((other, items.map f) :: _)
    rw [placeItem]
    split_ifs
    · simp
    · rw [map_cons, ih]
      rfl

theorem members_placeItem (group : List Char) (item : α) (grouped : List (List Char × List α)) :
    ∃ name, lower name = lower group ∧ (name = group ∨ name ∈ grouped.map Prod.fst)
      ∧ (members (placeItem group item grouped)).Perm ((name, item) :: members grouped) := by
  induction grouped with
  | nil => exact ⟨group, rfl, .inl rfl, List.Perm.refl _⟩
  | cons first rest ih =>
    have ⟨other, items⟩ := first
    rw [placeItem]
    split_ifs with isGroup
    · refine ⟨other, isGroup, .inr mem_cons_self, ?_⟩
      simp only [members, flatMap_cons, map_append, map_cons, map_nil,
        append_assoc, singleton_append]
      exact perm_middle
    · have ⟨name, sameGroup, known, isPerm⟩ := ih
      refine ⟨name, sameGroup, known.imp_right (mem_cons_of_mem _), ?_⟩
      simp only [members, flatMap_cons]
      exact (isPerm.append_left _).trans perm_middle

theorem names_placeItem {group : List Char} {item : α} {grouped : List (List Char × List α)}
    {name : List Char} (known : name ∈ (placeItem group item grouped).map Prod.fst) :
    name = group ∨ name ∈ grouped.map Prod.fst := by
  induction grouped with
  | nil => exact .inl (mem_singleton.1 known)
  | cons first rest ih =>
    have ⟨other, items⟩ := first
    rw [placeItem] at known
    split_ifs at known with isGroup
    · exact .inr known
    · rw [map_cons, mem_cons] at known ⊢
      rcases known with isOther | later
      · exact .inr (.inl isOther)
      · exact (ih later).imp_right .inr

end Groups

def planned (additions : List FeedAddition) : List (List Char × List FeedAddition) :=
  additions.foldl (fun plan addition => placeItem addition.groupName addition plan) []

structure Plans (additions : List FeedAddition)
    (plan : List (List Char × List FeedAddition)) : Prop where
  perm : ((members plan).map Prod.snd).Perm additions
  named : ∀ member ∈ members plan, lower member.1 = lower member.2.groupName
  given : ∀ name ∈ plan.map Prod.fst, ∃ addition ∈ additions, name = addition.groupName

theorem Plans.place {additions : List FeedAddition} {plan : List (List Char × List FeedAddition)}
    (plans : Plans additions plan) (addition : FeedAddition) :
    Plans (additions ++ [addition]) (placeItem addition.groupName addition plan) := by
  have ⟨name, sameGroup, known, isPerm⟩ := members_placeItem addition.groupName addition plan
  refine ⟨?_, fun member among => ?_, fun other isName => ?_⟩
  · apply (isPerm.map Prod.snd).trans
    rw [map_cons]
    exact (plans.perm.cons addition).trans (perm_append_singleton addition additions).symm
  · rcases mem_cons.1 (isPerm.mem_iff.1 among) with rfl | earlier
    · exact sameGroup
    · exact plans.named member earlier
  · rcases names_placeItem isName with rfl | earlier
    · exact ⟨addition, by simp, rfl⟩
    · have ⟨first, among, isFirst⟩ := plans.given other earlier
      exact ⟨first, mem_append_left _ among, isFirst⟩

theorem plans_planned (additions : List FeedAddition) : Plans additions (planned additions) := by
  induction additions using List.reverseRecOn with
  | nil => exact ⟨List.Perm.refl _, nofun, nofun⟩
  | append_singleton additions addition ih =>
    rw [planned, foldl_append]
    exact ih.place addition

theorem foldl_placeItem_eq (additions : List FeedAddition) :
    additions.foldl (fun grouped addition => placeItem addition.groupName addition.item grouped) []
      = (planned additions).map (Prod.map id (List.map FeedAddition.item)) := by
  induction additions using List.reverseRecOn with
  | nil => rfl
  | append_singleton additions addition ih =>
    rw [planned, foldl_append, foldl_append, ih]
    exact (map_placeItem FeedAddition.item addition.groupName addition _).symm

/-! ### The lines of groups -/

def headingBody (group : List Char) : List Char := '#' :: '#' :: ' ' :: group

def itemBody (item : List Char) : List Char := '-' :: ' ' :: item

inductive Sections : List (List Char × List (List Char)) → List (List Char) → Prop
  | nil : Sections [] []
  | cons (blanks : Nat) (group : List Char) (items : List (List Char))
      {rest : List (List Char × List (List Char))} {lines : List (List Char)}
      (others : Sections rest lines) :
      Sections ((group, items) :: rest)
        (List.replicate blanks [] ++ (headingBody group :: (items.map itemBody ++ lines)))

section Text

variable {newline : List Char}

theorem flatMap_itemLine (items : List (List Char)) :
    items.flatMap (fun item => itemLine item newline) = written newline (items.map itemBody) := by
  rw [written, flatMap_map]
  rfl

/-- A line break for the last line, if it has none, and blank lines. -/
theorem exists_spaced (webUrl : List Char → Bool) (isNewline : IsNewline newline)
    (candidate : List Char) (grouped : List Char × List (List Char)) :
    ∃ base blanks, Whole '\n' base ∧ looks webUrl base = looks webUrl candidate
      ∧ appendItems newline candidate grouped = base ++ written newline
        (List.replicate blanks [] ++ (headingBody grouped.1 :: grouped.2.map itemBody)) := by
  have isTail : headingLine grouped.1 newline
      ++ grouped.2.flatMap (fun item => itemLine item newline)
      = written newline (headingBody grouped.1 :: grouped.2.map itemBody) := by
    rw [flatMap_itemLine]
    rfl
  have oneBlank : written newline (List.replicate 1 []) = newline := by simp [written]
  have twoBlanks : written newline (List.replicate 2 []) = newline ++ newline := by
    simp [written, replicate_succ]
  by_cases empty : candidate = []
  · refine ⟨[], 0, whole_nil, by rw [empty], ?_⟩
    rw [empty, appendItems]
    simpa using isTail
  · by_cases ends : newline.isSuffixOf candidate = true
    · refine ⟨candidate, 1, isNewline.ends ends, rfl, ?_⟩
      rw [appendItems, written_append, oneBlank, ← isTail]
      simp [empty, ends]
    · by_cases ended : candidate.getLast? = some '\n'
      · obtain ⟨before, rfl⟩ := getLast?_eq_some_iff.1 ended
        refine ⟨before ++ ['\n'], 2, whole_concat before, rfl, ?_⟩
        rw [appendItems, written_append, twoBlanks, ← isTail]
        simp [ends]
      · refine ⟨candidate ++ newline, 1, isNewline.whole candidate,
          looks_ended isNewline empty ended, ?_⟩
        rw [appendItems, written_append, oneBlank, ← isTail]
        simp [empty, ends]

theorem looks_foldl_appendItems (webUrl : List Char → Bool) (isNewline : IsNewline newline)
    {grouped : List (List Char × List (List Char))}
    (areBodies : ∀ group ∈ grouped, IsBody (headingBody group.1)
      ∧ ∀ item ∈ group.2, IsBody (itemBody item)) (candidate : List Char) :
    ∃ lines, Sections grouped lines ∧ looks webUrl (grouped.foldl (appendItems newline) candidate)
      = looks webUrl candidate ++ lines.map (look webUrl) := by
  induction grouped generalizing candidate with
  | nil => exact ⟨[], .nil, by simp⟩
  | cons group rest ih =>
    have ⟨base, blanks, whole, sameLooks, isText⟩ :=
      exists_spaced webUrl isNewline candidate group
    have ⟨isHeading, areItems⟩ := areBodies group mem_cons_self
    have ⟨lines, areSections, isLooks⟩ := ih
      (fun other among => areBodies other (mem_cons_of_mem _ among))
      (appendItems newline candidate group)
    have allBodies : ∀ body ∈ List.replicate blanks []
        ++ (headingBody group.1 :: group.2.map itemBody), IsBody body := by
      intro body among
      rcases mem_append.1 among with isBlank | among
      · rw [(mem_replicate.1 isBlank).2]
        exact isBody_nil
      · rcases mem_cons.1 among with rfl | among
        · exact isHeading
        · obtain ⟨item, isItem, rfl⟩ := List.mem_map.1 among
          exact areItems item isItem
    refine ⟨_, .cons blanks group.1 group.2 areSections, ?_⟩
    rw [foldl_cons, isLooks, isText, looks_append whole, looks_written isNewline allBodies,
      sameLooks]
    simp

end Text

/-! ### The feeds of groups -/

def ManifestFeed.unplaced (feed : ManifestFeed) : ManifestFeed := { feed with line := 0 }

def contextOf (group : List Char) : Context :=
  ⟨(splitTrailingTags group).1, deduplicateTags (splitTrailingTags group).2⟩

def readMember (webUrl : List Char → Bool) (member : List Char × List Char) : Option ManifestFeed :=
  match readLine webUrl (itemBody member.2) with
  | .feed url title tags _ _ =>
    some ⟨url, title, (contextOf member.1).group,
      tags.foldl pushUnique (contextOf member.1).tags, 0⟩
  | _ => none

section Sections

variable {webUrl : List Char → Bool}

theorem feedsFrom_blanks (number blanks : Nat) (context : Context) (rest : List Reading) :
    feedsFrom number context ((List.replicate blanks []).map (readLine webUrl) ++ rest)
      = feedsFrom (number + blanks) context rest := by
  induction blanks generalizing number with
  | zero => rfl
  | succ blanks ih =>
    rw [replicate_succ, map_cons, cons_append]
    show feedsFrom (number + 1) context _ = _
    rw [ih, Nat.add_assoc, Nat.add_comm 1]

theorem unplaced_feedsFrom_items (number : Nat) (group : List Char) (items : List (List Char))
    (rest : List Reading) :
    (feedsFrom number (contextOf group)
        ((items.map itemBody).map (readLine webUrl) ++ rest)).map ManifestFeed.unplaced
      = (items.map (group, ·)).filterMap (readMember webUrl)
        ++ (feedsFrom (number + items.length) (contextOf group) rest).map
          ManifestFeed.unplaced := by
  induction items generalizing number with
  | nil => rfl
  | cons item items ih =>
    have shifted : number + (item :: items).length = number + 1 + items.length := by
      rw [length_cons]
      omega
    have later := ih (number + 1)
    rw [shifted, map_cons, map_cons, map_cons, cons_append]
    cases isRead : readLine webUrl (itemBody item) with
    | heading other tags => exact absurd isRead (readLine_item_ne_heading item other tags)
    | feed url title tags indentLen marker =>
      have isMember : readMember webUrl (group, item) = some ⟨url, title,
          (contextOf group).group, tags.foldl pushUnique (contextOf group).tags, 0⟩ := by
        rw [readMember, isRead]
      rw [filterMap_cons_some isMember, cons_append, ← later]
      rfl
    | malformed | other =>
      have noMember : readMember webUrl (group, item) = none := by rw [readMember, isRead]
      rw [feedsFrom_cons_of_none rfl, filterMap_cons_none noMember]
      exact later

theorem isDelimiter_length {text : List Char} (isDelimiter : IsDelimiter text) :
    text.length = 3 ∧ ' ' ∉ text := by
  rcases isDelimiter with rfl | rfl <;> decide

theorem Sections.plain {grouped : List (List Char × List (List Char))} {lines : List (List Char)}
    (areSections : Sections grouped lines) (solid : ∀ group ∈ grouped,
      trim (headingBody group.1) = headingBody group.1
        ∧ ∀ item ∈ group.2, trim (itemBody item) = itemBody item) :
    ∀ line ∈ lines, ¬IsDelimiter (trim line) := by
  induction areSections with
  | nil => nofun
  | cons blanks group items _ ih =>
    have ⟨isHeading, areItems⟩ := solid _ mem_cons_self
    intro line among isDelimiter
    have noBlank := (isDelimiter_length isDelimiter).2
    rcases mem_append.1 among with isBlank | among
    · rw [(mem_replicate.1 isBlank).2] at isDelimiter
      exact nomatch (isDelimiter_length isDelimiter).1
    · rcases mem_cons.1 among with rfl | among
      · rw [isHeading] at noBlank
        exact noBlank (by simp [headingBody])
      · rcases mem_append.1 among with isItem | later
        · obtain ⟨item, inItems, rfl⟩ := List.mem_map.1 isItem
          rw [areItems item inItems] at noBlank
          exact noBlank (by simp [itemBody])
        · exact ih (fun other among => solid other (mem_cons_of_mem _ among)) line later isDelimiter

theorem Sections.feeds {grouped : List (List Char × List (List Char))} {lines : List (List Char)}
    (areSections : Sections grouped lines)
    (areNames : ∀ group ∈ grouped, trim group.1 = group.1 ∧ group.1 ≠ [])
    (number : Nat) (context : Context) :
    (feedsFrom number context (lines.map (readLine webUrl))).map ManifestFeed.unplaced
      = (members grouped).filterMap (readMember webUrl) := by
  induction areSections generalizing number context with
  | nil => rfl
  | cons blanks group items _ ih =>
    obtain ⟨trimmed, some⟩ := areNames _ mem_cons_self
    have later := ih fun other among =>
      areNames other (mem_cons_of_mem _ among)
    rw [map_append, feedsFrom_blanks, map_cons, map_append, headingBody,
      readLine_heading trimmed some]
    show (feedsFrom _ (contextOf group) _).map ManifestFeed.unplaced = _
    rw [unplaced_feedsFrom_items, later]
    show _ = (items.map (group, ·) ++ members _).filterMap (readMember webUrl)
    rw [filterMap_append]

end Sections

/-! ### What is read back -/

structure Represents (feed : ManifestFeed) (addition : FeedAddition) : Prop where
  url : feed.url = addition.url
  group : lower feed.group = lower (trim addition.group)
  title : feed.titleOverride = trimmedTitle addition.titleOverride
  tags : normalizeInputTags addition.tags = .ok feed.tags

def ReadsBack (addition : FeedAddition) : Prop :=
  Untagged (trim addition.group) ∧ ∀ title ∈ trimmedTitle addition.titleOverride, PlainTitle title

def readAddition (webUrl : List Char → Bool) (member : List Char × FeedAddition) :
    Option ManifestFeed :=
  readMember webUrl (member.1, member.2.item)

def feedWeight (feed : ManifestFeed) : Nat := 1 + titleLength feed.titleOverride + feed.group.length

def additionWeight (addition : FeedAddition) : Nat :=
  1 + titleLength addition.title + addition.groupName.length

def readWeight (webUrl : List Char → Bool) (member : List Char × FeedAddition) : Nat :=
  ((readAddition webUrl member).map feedWeight).getD 0

section ReadBack

variable {webUrl : List Char → Bool} {member : List Char × FeedAddition}

theorem length_eq_of_lower {first second : List Char} (same : lower first = lower second) :
    first.length = second.length := by
  have lengths := congrArg List.length same
  rwa [lower, lower, length_map, length_map] at lengths

theorem untagged_of_lower {first second : List Char} (same : lower first = lower second)
    (untagged : Untagged second) : Untagged first := by
  rw [← untagged_lower, same, untagged_lower]
  exact untagged

theorem trim_of_mem_trimmedTitle {title : Option (List Char)} {text : List Char}
    (isTitle : text ∈ trimmedTitle title) : trim text = text ∧ text ≠ [] := by
  obtain ⟨isTrimmed, some⟩ := filter_eq_some_iff.1 isTitle
  obtain ⟨given, _, rfl⟩ := map_eq_some_iff.1 isTrimmed
  exact ⟨Trim.trim_trim given, by simpa using some⟩

theorem Represents.weight {feed : ManifestFeed} {addition : FeedAddition}
    (represents : Represents feed addition) : feedWeight feed = additionWeight addition := by
  rw [feedWeight, additionWeight, represents.title, length_eq_of_lower represents.group]
  rfl

variable (lawful : LawfulUrls webUrl)

include lawful

theorem readLine_of_plain {addition : FeedAddition} (acceptable : Acceptable webUrl addition)
    (plain : ∀ title ∈ trimmedTitle addition.titleOverride, PlainTitle title) :
    readLine webUrl (itemBody addition.item)
      = .feed addition.url addition.title addition.itemTags 0 '-' := by
  have requested := acceptable.requested
  rw [FeedAddition.item]
  cases isTitle : addition.title with
  | none => exact readLine_url lawful requested
  | some title =>
    obtain ⟨trimmed, some⟩ := trim_of_mem_trimmedTitle isTitle
    exact readLine_link requested trimmed some (plain title isTitle)

variable (acceptable : Acceptable webUrl member.2)
  (sameGroup : lower member.1 = lower member.2.groupName)

include acceptable sameGroup

theorem readAddition_of_readsBack (readsBack : ReadsBack member.2) :
    ∃ feed, readAddition webUrl member = some feed ∧ Represents feed member.2 := by
  have untagged : Untagged member.1 := untagged_of_lower sameGroup readsBack.1
  have isContext : contextOf member.1 = ⟨member.1, []⟩ := by
    rw [contextOf, splitTrailingTags_of_none untagged]
    rfl
  have isRead := readLine_of_plain lawful acceptable readsBack.2
  refine ⟨⟨member.2.url, member.2.title, member.1, member.2.itemTags, 0⟩, ?_,
    ⟨rfl, sameGroup, rfl, acceptable.areTags⟩⟩
  have unchanged : member.2.itemTags.foldl pushUnique [] = member.2.itemTags :=
    deduplicateTags_of_nodup acceptable.requested.nodup
  rw [readAddition, readMember, isRead, isContext]
  dsimp only
  rw [unchanged]

theorem readWeight_lt (notBack : ¬ReadsBack member.2) :
    readWeight webUrl member < additionWeight member.2 := by
  have sameLength := length_eq_of_lower sameGroup
  have keptLength := (kept_begins member.1).length_le
  rw [readWeight, additionWeight]
  cases isRead : readAddition webUrl member with
  | none =>
    rw [map_none, getD_none]
    omega
  | some feed =>
    rw [map_some, getD_some, feedWeight]
    rw [readAddition, readMember] at isRead
    split at isRead
    · rename_i url title tags indentLen marker isLine
      rw [← some.inj isRead]
      dsimp only [contextOf]
      by_cases plain : ∀ title ∈ trimmedTitle member.2.titleOverride, PlainTitle title
      · have tagged : ¬Untagged member.1 := fun untagged =>
          notBack ⟨untagged_of_lower sameGroup.symm untagged, plain⟩
        have shorter : ¬member.1.length ≤ (splitTrailingTags member.1).1.length :=
          mt untagged_of_length_kept tagged
        rw [readLine_of_plain lawful acceptable plain] at isLine
        rw [(Reading.feed.inj isLine).2.1]
        omega
      · obtain ⟨given, isTitle, notPlain⟩ : ∃ title ∈ trimmedTitle member.2.titleOverride,
            ¬PlainTitle title := by
          by_contra none
          exact plain fun title isTitle => by_contra fun notPlain =>
            none ⟨title, isTitle, notPlain⟩
        have isGiven : member.2.title = Option.some given := isTitle
        rw [FeedAddition.item, isGiven] at isLine
        have shorter := titleLength_lt_of_not_plain lawful acceptable.requested
          (trim_of_mem_trimmedTitle isTitle).1 notPlain isLine
        rw [isGiven]
        show 1 + titleLength title + _ < 1 + given.length + _
        omega
    · exact nomatch isRead

theorem readWeight_of_readsBack (readsBack : ReadsBack member.2) :
    readWeight webUrl member = additionWeight member.2 := by
  have ⟨feed, isRead, represents⟩ :=
    readAddition_of_readsBack lawful acceptable sameGroup readsBack
  rw [readWeight, isRead]
  exact represents.weight

omit sameGroup acceptable lawful

theorem sum_feedWeight (webUrl : List Char → Bool) (list : List (List Char × FeedAddition)) :
    ((list.filterMap (readAddition webUrl)).map feedWeight).sum
      = (list.map (readWeight webUrl)).sum := by
  induction list with
  | nil => rfl
  | cons first rest ih =>
    rw [map_cons, sum_cons, ← ih, readWeight]
    cases isRead : readAddition webUrl first with
    | none =>
      rw [filterMap_cons_none isRead]
      exact (Nat.zero_add _).symm
    | some feed =>
      rw [filterMap_cons_some isRead]
      rfl

theorem map_weight_of_represents {feeds : List ManifestFeed} {additions : List FeedAddition}
    (represent : List.Forall₂ Represents feeds additions) :
    feeds.map feedWeight = additions.map additionWeight := by
  induction represent with
  | nil => rfl
  | cons represents _ ih =>
    rw [map_cons, map_cons, represents.weight, ih]

theorem represents_filterMap (lawful : LawfulUrls webUrl) {list : List (List Char × FeedAddition)}
    (acceptable : ∀ member ∈ list, Acceptable webUrl member.2)
    (named : ∀ member ∈ list, lower member.1 = lower member.2.groupName)
    (readBack : ∀ member ∈ list, ReadsBack member.2) :
    List.Forall₂ Represents (list.filterMap (readAddition webUrl)) (list.map Prod.snd) := by
  induction list with
  | nil => exact .nil
  | cons first rest ih =>
    rw [forall_mem_cons] at acceptable named readBack
    have ⟨feed, isRead, represents⟩ :=
      readAddition_of_readsBack lawful acceptable.1 named.1 readBack.1
    rw [filterMap_cons_some isRead, map_cons]
    exact .cons represents (ih acceptable.2 named.2 readBack.2)

/-- The feeds read are those requested exactly when each addition reads back. -/
theorem represented_iff (lawful : LawfulUrls webUrl) {additions : List FeedAddition}
    {plan : List (List Char × List FeedAddition)} (plans : Plans additions plan)
    (acceptable : ∀ addition ∈ additions, Acceptable webUrl addition) {added : List ManifestFeed}
    (areRead : added.map ManifestFeed.unplaced = (members plan).filterMap (readAddition webUrl)) :
    (∃ order, order.Perm additions ∧ List.Forall₂ Represents added order)
      ↔ ∀ addition ∈ additions, ReadsBack addition := by
  have among : ∀ member ∈ members plan, member.2 ∈ additions := fun member isMember =>
    plans.perm.mem_iff.1 (List.mem_map_of_mem isMember)
  constructor
  · intro ⟨order, isPerm, represent⟩
    by_contra notAll
    obtain ⟨addition, isGiven, notBack⟩ : ∃ addition ∈ additions, ¬ReadsBack addition := by
      by_contra none
      exact notAll fun addition isGiven => by_contra fun notBack =>
        none ⟨addition, isGiven, notBack⟩
    obtain ⟨member, isMember, rfl⟩ := List.mem_map.1 (plans.perm.mem_iff.2 isGiven)
    have atMost : ∀ other ∈ members plan,
        readWeight webUrl other ≤ (additionWeight ∘ Prod.snd) other := by
      intro other isOther
      have passes := acceptable _ (among other isOther)
      by_cases back : ReadsBack other.2
      · exact (readWeight_of_readsBack lawful passes (plans.named other isOther) back).le
      · exact (readWeight_lt lawful passes (plans.named other isOther) back).le
    have less := sum_lt_sum _ _ atMost ⟨member, isMember,
      readWeight_lt lawful (acceptable _ isGiven) (plans.named member isMember) notBack⟩
    have given : ((members plan).map (additionWeight ∘ Prod.snd)).sum
        = (additions.map additionWeight).sum := by
      rw [← List.map_map]
      exact (plans.perm.map additionWeight).sum_eq
    have requested := map_weight_of_represents represent
    have isRead : (added.map feedWeight).sum = ((members plan).map (readWeight webUrl)).sum := by
      rw [← sum_feedWeight, ← areRead, List.map_map]
      rfl
    have isOrder : (order.map additionWeight).sum = (additions.map additionWeight).sum :=
      (isPerm.map additionWeight).sum_eq
    rw [requested] at isRead
    omega
  · intro allBack
    refine ⟨(members plan).map Prod.snd, plans.perm, ?_⟩
    have read : List.Forall₂ Represents (added.map ManifestFeed.unplaced)
        ((members plan).map Prod.snd) := by
      rw [areRead]
      exact represents_filterMap lawful
        (fun member isMember => acceptable _ (among member isMember))
        plans.named fun member isMember => allBack _ (among member isMember)
    rw [forall₂_map_left_iff] at read
    exact read.imp fun feed addition represents =>
      ⟨represents.url, represents.group, represents.title, represents.tags⟩

end ReadBack

/-! ### A batch of additions -/

section Batch

variable {webUrl : List Char → Bool} {text : List Char}

theorem isSingleLine_iff :
    isSingleLine text = true ↔ ∀ character ∈ text, character ≠ '\r' ∧ character ≠ '\n' := by
  rw [isSingleLine, Bool.and_eq_true, Bool.not_eq_true', Bool.not_eq_true']
  constructor
  · intro ⟨noReturn, noBreak⟩ character among
    constructor
    · rintro rfl
      simp [among] at noReturn
    · rintro rfl
      simp [among] at noBreak
  · intro plain
    constructor
    · have absent : '\r' ∉ text := fun among => (plain '\r' among).1 rfl
      simpa using absent
    · have absent : '\n' ∉ text := fun among => (plain '\n' among).2 rfl
      simpa using absent

theorem isBody_of_oneLine (plain : ∀ character ∈ text, character ≠ '\r' ∧ character ≠ '\n') :
    IsBody text :=
  ⟨fun among => (plain '\n' among).2 rfl, fun isLast =>
    (plain '\r' (mem_of_mem_getLast? isLast)).1 rfl⟩

theorem oneLine_of_solid (solid : ∀ character ∈ text, isWhitespace character = false) :
    ∀ character ∈ text, character ≠ '\r' ∧ character ≠ '\n' := by
  intro character among
  have isSolid := solid character among
  constructor
  · rintro rfl
    exact absurd isSolid (by decide)
  · rintro rfl
    exact absurd isSolid (by decide)

theorem oneLine_renderItem {url : List Char} {title : Option (List Char)}
    {tags : List (List Char)} (requested : Requested webUrl url tags)
    (oneLineTitle : ∀ text ∈ title, isSingleLine text = true) :
    ∀ character ∈ renderItem url title tags, character ≠ '\r' ∧ character ≠ '\n' := by
  have plainUrl := oneLine_of_solid (solid_of_isHttpUrl requested.isUrl)
  intro character among
  rcases mem_append.1 among with inBase | inTags
  · cases title with
    | none => exact plainUrl character inBase
    | some title =>
      have plainTitle := isSingleLine_iff.1 (oneLineTitle title rfl)
      simp only [mem_cons, mem_append, not_mem_nil, or_false] at inBase
      rcases inBase with rfl | inTitle | rfl | rfl | inUrl | rfl
      · decide
      · exact plainTitle character inTitle
      · decide
      · decide
      · exact plainUrl character inUrl
      · decide
  · have ⟨tag, isTag, inTag⟩ := mem_flatMap.1 inTags
    rcases mem_cons.1 inTag with rfl | inTag
    · decide
    · rcases mem_cons.1 inTag with rfl | inTag
      · decide
      · exact oneLine_of_solid (requested.areTags tag isTag).solid character inTag

theorem isBody_headingBody {group : List Char} (oneLine : isSingleLine group = true) :
    IsBody (headingBody group) := by
  have plain := isSingleLine_iff.1 oneLine
  apply isBody_of_oneLine
  simp only [headingBody, forall_mem_cons]
  exact ⟨by decide, by decide, by decide, plain⟩

theorem isBody_itemBody {item : List Char}
    (plain : ∀ character ∈ item, character ≠ '\r' ∧ character ≠ '\n') :
    IsBody (itemBody item) := by
  apply isBody_of_oneLine
  simp only [itemBody, forall_mem_cons]
  exact ⟨by decide, by decide, plain⟩

theorem plan_checked (lawful : LawfulUrls webUrl) {additions : List FeedAddition}
    (acceptable : ∀ addition ∈ additions, Acceptable webUrl addition)
    {group : List Char × List (List Char)}
    (isGroup : group ∈ (planned additions).map (Prod.map id (List.map FeedAddition.item))) :
    (trim group.1 = group.1 ∧ group.1 ≠ [] ∧ isSingleLine group.1 = true)
      ∧ ∀ item ∈ group.2, (trim item = item ∧ item ≠ [])
        ∧ ∀ character ∈ item, character ≠ '\r' ∧ character ≠ '\n' := by
  have plans := plans_planned additions
  obtain ⟨⟨name, items⟩, inPlan, rfl⟩ := List.mem_map.1 isGroup
  constructor
  · obtain ⟨addition, isGiven, rfl⟩ := plans.given name (List.mem_map_of_mem inPlan)
    have passes := acceptable addition isGiven
    exact ⟨Trim.trim_trim addition.group, passes.named, passes.oneLineGroup⟩
  · intro item isItem
    obtain ⟨addition, inItems, rfl⟩ := List.mem_map.1 isItem
    have isMember : (name, addition) ∈ members (planned additions) :=
      mem_flatMap.2 ⟨_, inPlan, List.mem_map_of_mem inItems⟩
    have passes := acceptable addition (plans.perm.mem_iff.1 (List.mem_map_of_mem isMember))
    exact ⟨⟨trim_renderItem lawful passes.requested _, renderItem_ne_nil lawful passes.requested _⟩,
      oneLine_renderItem passes.requested passes.oneLineTitle⟩

theorem members_map (plan : List (List Char × List FeedAddition)) :
    members (plan.map (Prod.map id (List.map FeedAddition.item)))
      = (members plan).map fun member => (member.1, member.2.item) := by
  rw [members, members, flatMap_map, map_flatMap]
  simp [Prod.map, List.map_map, Function.comp_def]

variable {source candidate : List Char} {additions : List FeedAddition}

theorem addFeeds_eq_ok (some : additions ≠ [])
    (isOk : addFeeds webUrl source additions = .ok candidate) :
    (∀ addition ∈ additions, Acceptable webUrl addition)
      ∧ candidate = ((planned additions).map (Prod.map id (List.map FeedAddition.item))).foldl
        (appendItems (newlineSequence source)) source
      ∧ (parseDocument webUrl candidate).warnings = [] := by
  have notEmpty : ¬additions.isEmpty = true := by simpa using some
  rw [addFeeds, if_neg notEmpty] at isOk
  have ⟨grouped, isGrouped, isOk⟩ := of_bind_ok isOk
  have ⟨checked, isValid, isOk⟩ := of_bind_ok isOk
  obtain ⟨acceptable, rfl⟩ := groupAdditions_eq_ok isGrouped
  rw [foldl_placeItem_eq] at isValid isOk
  have isCandidate := Except.ok.inj isOk
  refine ⟨acceptable, isCandidate.symm, ?_⟩
  rw [isCandidate, validateCandidate] at isValid
  split_ifs at isValid with noWarnings
  exact noWarnings

theorem addFeeds_looks (lawful : LawfulUrls webUrl) (some : additions ≠ [])
    (isOk : addFeeds webUrl source additions = .ok candidate) :
    ∃ lines : List (List Char),
      looks webUrl candidate = looks webUrl source ++ lines.map (look webUrl)
      ∧ (∀ line ∈ lines, ¬IsDelimiter (trim line))
      ∧ ∀ number context,
        (feedsFrom number context (lines.map (readLine webUrl))).map ManifestFeed.unplaced
          = (members (planned additions)).filterMap (readAddition webUrl) := by
  have ⟨acceptable, isCandidate, _⟩ := addFeeds_eq_ok some isOk
  have checked := fun group isGroup =>
    @plan_checked webUrl lawful additions acceptable group isGroup
  have ⟨lines, areSections, isLooks⟩ := looks_foldl_appendItems webUrl
    (isNewline_newlineSequence source) (fun group isGroup =>
      ⟨isBody_headingBody (checked group isGroup).1.2.2,
        fun item isItem => isBody_itemBody ((checked group isGroup).2 item isItem).2⟩) source
  refine ⟨lines, isCandidate ▸ isLooks, areSections.plain fun group isGroup => ?_,
    fun number context => ?_⟩
  · have ⟨⟨trimmed, named, _⟩, areItems⟩ := checked group isGroup
    refine ⟨trim_heading trimmed named, fun item isItem => ?_⟩
    exact @trim_append_of_solid '-' [' '] item (by decide) (areItems item isItem).1.1
      (areItems item isItem).1.2
  · rw [areSections.feeds fun group isGroup =>
      ⟨(checked group isGroup).1.1, (checked group isGroup).1.2.1⟩, members_map,
      filterMap_map]
    rfl

theorem not_opensFrontmatter_iff : ¬OpensFrontmatter text ↔
    ∀ first rest, bodies text = first :: rest → IsDelimiter (trim first) →
      ∃ body ∈ rest, trim body = trim first := by
  unfold OpensFrontmatter
  split
  · rename_i none
    rw [none]
    simp
  · rename_i head tail isText
    rw [isText]
    constructor
    · intro closed first rest same isDelimiter
      obtain ⟨rfl, rfl⟩ := List.cons.inj same
      by_contra none
      exact closed ⟨isDelimiter, fun body among isClosing => none ⟨body, among, isClosing⟩⟩
    · rintro closed ⟨isDelimiter, unclosed⟩
      obtain ⟨body, among, isClosing⟩ := closed head tail rfl isDelimiter
      exact unclosed body among isClosing

theorem addFeeds_feeds (lawful : LawfulUrls webUrl) (some : additions ≠ [])
    (isOk : addFeeds webUrl source additions = .ok candidate) (closed : ¬OpensFrontmatter source) :
    ∃ added, (parseDocument webUrl candidate).feeds = (parseDocument webUrl source).feeds ++ added
      ∧ added.map ManifestFeed.unplaced
        = (members (planned additions)).filterMap (readAddition webUrl) := by
  obtain ⟨lines, isLooks, plain, feeds⟩ := addFeeds_looks lawful some isOk
  have noWarnings := (addFeeds_eq_ok some isOk).2.2
  have isShown : shown webUrl candidate = shown webUrl source ++ lines.map (readLine webUrl) := by
    rw [shown, isLooks, shownOf_append, List.map_map]
    · rfl
    · intro line among
      obtain ⟨body, isLine, rfl⟩ := List.mem_map.1 among
      exact plain body isLine
    · intro first rest isSource isDelimiter
      rw [looks, map_eq_cons_iff] at isSource
      obtain ⟨body, others, isText, rfl, rfl⟩ := isSource
      obtain ⟨closing, among, isClosing⟩ :=
        not_opensFrontmatter_iff.1 closed body others isText isDelimiter
      exact ⟨look webUrl closing, List.mem_map_of_mem among, isClosing⟩
  have clean := parseDocument_warnings.1 noWarnings
  have sourceClean : Clean (shown webUrl source) := by
    rw [isShown] at clean
    exact clean.of_append_left
  rw [parseDocument_feeds noWarnings, parseDocument_feeds (parseDocument_warnings.2 sourceClean),
    isShown, feedsFrom_append]
  exact ⟨_, rfl, feeds _ _⟩

theorem feedsFrom_replicate_other (number count : Nat) (context : Context) :
    feedsFrom number context (List.replicate count .other) = [] := by
  induction count generalizing number with
  | zero => rfl
  | succ count ih => exact ih (number + 1)

theorem addFeeds_feeds_of_opens (lawful : LawfulUrls webUrl) (some : additions ≠ [])
    (isOk : addFeeds webUrl source additions = .ok candidate) (opens : OpensFrontmatter source) :
    (parseDocument webUrl candidate).feeds = [] := by
  have ⟨lines, isLooks, plain, _⟩ := addFeeds_looks lawful some isOk
  rw [parseDocument_feeds (addFeeds_eq_ok some isOk).2.2]
  unfold OpensFrontmatter at opens
  split at opens
  · exact opens.elim
  · rename_i first rest isText
    have isShown : shown webUrl candidate = List.replicate
        ((rest.map (look webUrl) ++ lines.map (look webUrl)).length + 1) .other := by
      rw [shown, isLooks, looks, isText, map_cons, cons_append]
      apply shownOf_of_unclosed opens.1
      intro line among
      rcases mem_append.1 among with early | late
      · obtain ⟨body, inRest, rfl⟩ := List.mem_map.1 early
        exact opens.2 body inRest
      · obtain ⟨body, inLines, rfl⟩ := List.mem_map.1 late
        intro same
        have isSame : trim body = trim first := same
        exact plain body inLines (isSame ▸ opens.1)
    rw [isShown, feedsFrom_replicate_other]

/-- The feeds are those it had and one for each addition, exactly when no frontmatter is left open
before them, no group ends in a tag, and no title ends in a tag or has a bracket of a link. -/
theorem addFeeds_adds_iff (lawful : LawfulUrls webUrl) {source candidate : List Char}
    {additions : List FeedAddition}
    (isOk : addFeeds webUrl source additions = .ok candidate) :
    (∃ added order, (parseDocument webUrl candidate).feeds
        = (parseDocument webUrl source).feeds ++ added
      ∧ order.Perm additions ∧ List.Forall₂ Represents added order)
      ↔ (additions = [] ∨ ¬OpensFrontmatter source)
        ∧ ∀ addition ∈ additions, ReadsBack addition := by
  by_cases empty : additions = []
  · have unchanged : candidate = source := by
      rw [empty] at isOk
      exact (Except.ok.inj isOk).symm
    rw [empty, unchanged]
    exact iff_of_true ⟨[], [], (append_nil _).symm, List.Perm.refl _, .nil⟩
      ⟨.inl rfl, fun _ among => absurd among not_mem_nil⟩
  · by_cases opens : OpensFrontmatter source
    · refine iff_of_false ?_ fun both => both.1.elim empty fun closed => closed opens
      intro ⟨added, order, isFeeds, isPerm, represent⟩
      rw [addFeeds_feeds_of_opens lawful empty isOk opens] at isFeeds
      rw [(append_eq_nil_iff.1 isFeeds.symm).2] at represent
      rw [forall₂_nil_left_iff.1 represent] at isPerm
      exact empty isPerm.nil_eq.symm
    · have ⟨added, isFeeds, areRead⟩ := addFeeds_feeds lawful empty isOk opens
      have exactly := represented_iff lawful (plans_planned additions)
        (addFeeds_eq_ok empty isOk).1 areRead
      rw [and_iff_right (.inr opens), ← exactly, isFeeds]
      constructor
      · intro ⟨other, order, isSame, isPerm, represent⟩
        rw [← append_cancel_left isSame] at represent
        exact ⟨order, isPerm, represent⟩
      · intro ⟨order, isPerm, represent⟩
        exact ⟨added, order, rfl, isPerm, represent⟩

end Batch

def hasHost (url : List Char) : Bool := "http://".toList.isPrefixOf url && 7 < url.length

theorem lawful_hasHost : LawfulUrls hasHost := by
  intro url isUrl
  rw [hasHost, Bool.and_eq_true, isPrefixOf_iff_prefix] at isUrl
  obtain ⟨⟨rest, rfl⟩, _⟩ := isUrl
  exact ⟨'h', "ttp://".toList ++ rest, rfl, by decide⟩

theorem addFeeds_adds_release : (∃ added order, (parseDocument hasHost
          "## News\n- http://a.b/\n\n## news\n- [Release 2](http://c.d/) #go\n".toList).feeds
        = (parseDocument hasHost "## News\n- http://a.b/\n".toList).feeds ++ added
      ∧ order.Perm
        [⟨" news".toList, "http://c.d/".toList, some "Release 2 ".toList, ["#go".toList]⟩]
      ∧ List.Forall₂ Represents added order)
      ↔ ((([⟨" news".toList, "http://c.d/".toList, some "Release 2 ".toList, ["#go".toList]⟩] :
          List FeedAddition) = [])
          ∨ ¬OpensFrontmatter "## News\n- http://a.b/\n".toList)
        ∧ ∀ addition ∈ [(⟨" news".toList, "http://c.d/".toList, some "Release 2 ".toList,
          ["#go".toList]⟩ : FeedAddition)], ReadsBack addition :=
  addFeeds_adds_iff lawful_hasHost (by decide)

/-- A title whose last word is a tag takes its feed from the manifest. -/
theorem addFeeds_loses_tagged_title : ∃ candidate, addFeeds hasHost []
        [⟨"G".toList, "http://x.y/".toList, some "a #b".toList, []⟩] = .ok candidate
      ∧ ¬∃ added order, (parseDocument hasHost candidate).feeds
          = (parseDocument hasHost []).feeds ++ added
        ∧ order.Perm [⟨"G".toList, "http://x.y/".toList, some "a #b".toList, []⟩]
        ∧ List.Forall₂ Represents added order := by
  refine ⟨"## G\n- [a #b](http://x.y/)\n".toList, by decide, ?_⟩
  intro ⟨added, order, isFeeds, isPerm, represent⟩
  have noFeeds : (parseDocument hasHost "## G\n- [a #b](http://x.y/)\n".toList).feeds = [] := by
    decide
  rw [noFeeds] at isFeeds
  rw [(append_eq_nil_iff.1 isFeeds.symm).2] at represent
  rw [forall₂_nil_left_iff.1 represent] at isPerm
  exact nomatch isPerm.nil_eq

end Clepsydra.Feeds
