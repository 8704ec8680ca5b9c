import Clepsydra.Feeds.TrailingTags

/-!
Owns: the titles and URLs that are read as they were rendered.

Proves: a rendered item is read back, but for titles that end in a tag or have a `](`; and so is a
heading but for its trailing tags.
-/

namespace Clepsydra.Feeds

open Library List
open Vault (isWhitespace)

/-! ### Titles -/

def hasLinkBracket (title : List Char) : Bool := occurs [']', '('] title

theorem occurs_iff {pattern text : List Char} (nonempty : pattern ≠ []) :
    occurs pattern text = true ↔ pattern <:+: text := by
  rw [occurs, Option.isSome_iff_ne_none, ne_eq, splitOnce_eq_none_iff nonempty, not_not]

theorem splitOnce_link (title rest : List Char) :
    ∃ before after, splitOnce [']', '('] (title ++ ']' :: '(' :: rest) = some (before, after)
      ∧ before.length ≤ title.length
      ∧ (before.length = title.length →
        ¬[']', '('] <:+: title ∧ before = title ∧ after = rest) := by
  induction title with
  | nil => exact ⟨[], rest, by simp [splitOnce], le_rfl, fun _ => ⟨by simp, rfl, rfl⟩⟩
  | cons first title ih =>
    rw [cons_append, splitOnce]
    by_cases here : [']', '('].isPrefixOf (first :: (title ++ ']' :: '(' :: rest)) = true
    · rw [if_pos here]
      exact ⟨[], _, rfl, Nat.zero_le _, fun same => absurd same (by simp)⟩
    · obtain ⟨before, after, found, short, whole⟩ := ih
      rw [if_neg here, found]
      refine ⟨first :: before, after, rfl, by simpa using short, fun same => ?_⟩
      obtain ⟨absent, isTitle, isRest⟩ := whole (by simpa using same)
      refine ⟨?_, by rw [isTitle], isRest⟩
      intro inside
      rcases infix_cons_iff.1 inside with begins | later
      · rw [List.isPrefixOf_iff_prefix] at here
        apply here
        rw [← cons_append]
        exact begins.trans (prefix_append _ _)
      · exact absent later

theorem splitOnce_link_of_plain {title : List Char} (plain : ¬[']', '('] <:+: title)
    (rest : List Char) :
    splitOnce [']', '('] (title ++ ']' :: '(' :: rest) = some (title, rest) := by
  induction title with
  | nil => simp [splitOnce]
  | cons first title ih =>
    rw [infix_cons_iff, not_or] at plain
    have notHere : ¬[']', '('].isPrefixOf (first :: (title ++ ']' :: '(' :: rest)) = true := by
      rw [List.isPrefixOf_iff_prefix]
      intro begins
      cases title with
      | nil =>
        rw [nil_append, cons_prefix_cons, cons_prefix_cons] at begins
        exact absurd begins.2.1 (by decide)
      | cons second title =>
        apply plain.1
        rw [cons_append, cons_prefix_cons, cons_prefix_cons] at begins
        rw [begins.1, begins.2.1]
        exact ⟨title, rfl⟩
    rw [cons_append, splitOnce, if_neg notHere, ih plain.2]
    rfl

def endsInTag (title : List Char) : Bool :=
  title.any isWhitespace && (tagToken (lastToken title ++ [']', '('])).isSome

def PlainTitle (title : List Char) : Prop := hasLinkBracket title = false ∧ endsInTag title = false

instance (title : List Char) : Decidable (PlainTitle title) := inferInstanceAs (Decidable (_ ∧ _))

theorem isSome_tagToken_take (token : List Char) :
    (tagToken (token.take 2)).isSome = (tagToken token).isSome := by
  cases token with
  | nil => rfl
  | cons first rest =>
    by_cases isHash : first = '#'
    · cases rest with
      | nil => rfl
      | cons second rest =>
        rw [isHash]
        simp only [take_succ_cons, take_zero, tagToken, ne_eq, reduceCtorEq,
          not_false_eq_true, List.head?_cons, Option.some.injEq, true_and]
        split_ifs <;> rfl
    · have none : ∀ others : List Char, tagToken (first :: others) = none := by
        intro others
        unfold tagToken
        split
        · rename_i same
          exact absurd (List.cons.inj same).1 isHash
        · rfl
      rw [take_succ_cons, none, none]

theorem isSome_tagToken_bracket (token rest : List Char) :
    (tagToken (token ++ ']' :: '(' :: rest)).isSome = (tagToken (token ++ [']', '('])).isSome := by
  rw [← isSome_tagToken_take, ← isSome_tagToken_take (token ++ [']', '('])]
  congr 2
  have split : token ++ ']' :: '(' :: rest = (token ++ [']', '(']) ++ rest := by simp
  rw [split, take_append_of_le_length (by simp)]

/-! ### Items -/

def LawfulUrls (webUrl : List Char → Bool) : Prop :=
  ∀ url, webUrl url = true → ∃ first rest, url = first :: rest ∧ first ∉ ['[', '<', '#']

section Items

variable {webUrl : List Char → Bool} {url title : List Char} {tags : List (List Char)}

theorem solid_of_isHttpUrl (isUrl : isHttpUrl webUrl url = true) :
    ∀ character ∈ url, isWhitespace character = false := by
  rw [isHttpUrl, Bool.and_eq_true, Bool.not_eq_true', any_eq_false] at isUrl
  exact fun character among => (Bool.not_eq_true _).mp (isUrl.1 character among)

theorem LawfulUrls.exists_first (lawful : LawfulUrls webUrl) (isUrl : isHttpUrl webUrl url = true) :
    ∃ first rest, url = first :: rest ∧ first ∉ ['[', '<', '#'] := by
  rw [isHttpUrl, Bool.and_eq_true] at isUrl
  exact lawful url isUrl.2

theorem tagToken_eq_none_of_first {first : Char} (notHash : first ≠ '#') (rest : List Char) :
    tagToken (first :: rest) = none := by
  unfold tagToken
  split
  · rename_i same
    exact absurd (List.cons.inj same).1 notHash
  · rfl

theorem lastToken_of_solid {text : List Char}
    (solid : ∀ character ∈ text, isWhitespace character = false) : lastToken text = text := by
  have trimmed : trimEnd text = text :=
    trimEnd_of_last fun last isLast => solid last (List.mem_of_mem_getLast? isLast)
  rw [lastToken, trimmed, rtakeWhile_eq_self_iff]
  intro character among
  rw [isSolid, solid character among]
  rfl

theorem untagged_url (lawful : LawfulUrls webUrl) (isUrl : isHttpUrl webUrl url = true) :
    Untagged url := by
  have ⟨first, rest, isFirst, plain⟩ := lawful.exists_first isUrl
  rw [Untagged, lastToken_of_solid (solid_of_isHttpUrl isUrl), isFirst]
  apply tagToken_eq_none_of_first
  intro isHash
  rw [isHash] at plain
  exact plain (by decide)

def link (title url : List Char) : List Char := '[' :: (title ++ (']' :: '(' :: (url ++ [')'])))

theorem trim_of_tight {text : List Char} (first : ∀ first ∈ text.head?, isWhitespace first = false)
    (last : ∀ last ∈ text.getLast?, isWhitespace last = false) : trim text = text :=
  Trim.trim_eq_self_iff.2 ⟨first, last⟩

theorem trim_append_of_solid {first : Char} {signs text : List Char}
    (solid : isWhitespace first = false) (trimmed : trim text = text) (some : text ≠ []) :
    trim (first :: signs ++ text) = first :: signs ++ text := by
  have tight := Trim.trim_eq_self_iff.1 trimmed
  apply trim_of_tight
  · intro head isHead
    rw [← Option.some.inj isHead]
    exact solid
  · intro last isLast
    rw [List.getLast?_append_of_ne_nil _ some] at isLast
    exact tight.2 last isLast

theorem trim_link (title url : List Char) : trim (link title url) = link title url := by
  apply trim_of_tight
  · intro first isFirst
    rw [← Option.some.inj isFirst]
    decide
  · intro last isLast
    have isEnd : (link title url).getLast? = some ')' := by
      have split : link title url = ('[' :: (title ++ (']' :: '(' :: url))) ++ [')'] := by
        simp [link]
      rw [split, List.getLast?_concat]
    rw [isEnd] at isLast
    rw [← Option.some.inj isLast]
    decide

theorem lastToken_link {before word : List Char} {blank : Char}
    (isBlank : isWhitespace blank = true)
    (solidWord : ∀ character ∈ word, isWhitespace character = false)
    (solidUrl : ∀ character ∈ url, isWhitespace character = false) :
    lastToken (link (before ++ blank :: word) url) = word ++ ']' :: '(' :: (url ++ [')'])
      ∧ beforeToken (link (before ++ blank :: word) url) = trimEnd ('[' :: before) := by
  have split : link (before ++ blank :: word) url
      = ('[' :: before) ++ blank :: (word ++ ']' :: '(' :: (url ++ [')'])) := by
    simp [link]
  rw [split]
  apply lastToken_append (by simp) _ isBlank
  intro character among
  simp only [mem_append, mem_cons, not_mem_nil, or_false] at among
  rcases among with inWord | rfl | rfl | inUrl | rfl
  · exact solidWord character inWord
  · decide
  · decide
  · exact solidUrl character inUrl
  · decide

theorem exists_last_blank {text : List Char} (some : text.any isWhitespace = true) :
    ∃ before blank word, text = before ++ blank :: word ∧ isWhitespace blank = true
      ∧ ∀ character ∈ word, isWhitespace character = false := by
  induction text with
  | nil => exact absurd some Bool.false_ne_true
  | cons first rest ih =>
    by_cases later : rest.any isWhitespace = true
    · obtain ⟨before, blank, word, rfl, isBlank, solid⟩ := ih later
      exact ⟨first :: before, blank, word, rfl, isBlank, solid⟩
    · rw [Bool.not_eq_true] at later
      rw [any_cons, later, Bool.or_false] at some
      refine ⟨[], first, rest, rfl, some, fun character among => ?_⟩
      exact (Bool.not_eq_true _).mp (any_eq_false.1 later character among)

theorem untagged_link_iff (trimmed : trim title = title)
    (solidUrl : ∀ character ∈ url, isWhitespace character = false) :
    Untagged (link title url) ↔ endsInTag title = false := by
  cases blanks : title.any isWhitespace with
  | false =>
    refine iff_of_true ?_ (by rw [endsInTag, blanks, Bool.false_and])
    have solid : ∀ character ∈ link title url, isWhitespace character = false := by
      intro character among
      simp only [link, mem_append, mem_cons, not_mem_nil, or_false] at among
      rcases among with rfl | inTitle | rfl | rfl | inUrl | rfl
      · decide
      · exact (Bool.not_eq_true _).mp (any_eq_false.1 blanks character inTitle)
      · decide
      · decide
      · exact solidUrl character inUrl
      · decide
    rw [Untagged, lastToken_of_solid solid]
    exact tagToken_eq_none_of_first (by decide) _
  | true =>
    obtain ⟨before, blank, word, rfl, isBlank, solid⟩ := exists_last_blank blanks
    have some : word ≠ [] := by
      rintro rfl
      have tight := (Trim.trim_eq_self_iff.1 trimmed).2 blank (by simp)
      rw [isBlank] at tight
      exact absurd tight.symm Bool.false_ne_true
    rw [Untagged, (lastToken_link isBlank solid solidUrl).1, endsInTag, blanks, Bool.true_and,
      (lastToken_append some solid isBlank).1, ← isSome_tagToken_bracket word (url ++ [')']),
      ← Option.not_isSome_iff_eq_none, Bool.not_eq_true]

/-! ### Lines of items -/

theorem headingText_item (item : List Char) : headingText ('-' :: ' ' :: item) = none := by
  have begins : trim ('-' :: ' ' :: item) <+: '-' :: ' ' :: item := rdropWhile_prefix _ _
  unfold headingText
  split
  · rename_i isTrimmed
    rw [isTrimmed] at begins
    exact absurd (cons_prefix_cons.1 begins).1 (by decide)
  · rfl

theorem readLine_item_ne_heading (item group : List Char) (tags : List (List Char)) :
    readLine webUrl ('-' :: ' ' :: item) ≠ .heading group tags := by
  rw [readLine, headingText_item]
  intro isHeading
  dsimp only at isHeading
  split at isHeading
  · exact nomatch isHeading
  · split at isHeading
    · exact nomatch isHeading
    · split_ifs at isHeading

theorem readLine_item {item : List Char} (trimmed : trim item = item) :
    readLine webUrl ('-' :: ' ' :: item) =
      match parseItem webUrl (splitTrailingTags item).1 with
      | some (url, title) => .feed url title (deduplicateTags (splitTrailingTags item).2) 0 '-'
      | none =>
        if looksLikeFeedItem (splitTrailingTags item).1 then .malformed (splitTrailingTags item).1
        else .other := by
  have isItem : listItem ('-' :: ' ' :: item) = some ⟨item, 0, '-'⟩ := by
    have unindented : ('-' :: ' ' :: item).dropWhile
        (fun character => character = ' ' || character = '\t') = '-' :: ' ' :: item := rfl
    unfold listItem
    rw [unindented]
    show some (ListItem.mk (trim item)
      (('-' :: ' ' :: item).length - ('-' :: ' ' :: item).length) '-') = some ⟨item, 0, '-'⟩
    rw [trimmed, Nat.sub_self]
  simp only [readLine, headingText_item, isItem] <;> rfl

theorem deduplicateTags_of_nodup {tags : List (List Char)} (nodup : tags.Nodup) :
    deduplicateTags tags = tags := by
  have added : ∀ before : List (List Char), (before ++ tags).Nodup →
      tags.foldl pushUnique before = before ++ tags := by
    clear nodup
    induction tags with
    | nil => simp
    | cons tag rest ih =>
      intro before nodup
      have absent : tag ∉ before := fun among =>
        (nodup_append.1 nodup).2.2 tag among tag mem_cons_self rfl
      rw [append_cons] at nodup
      rw [foldl_cons, pushUnique, if_neg absent, ih _ nodup]
      simp
  exact added [] nodup

structure Requested (webUrl : List Char → Bool) (url : List Char) (tags : List (List Char)) :
    Prop where
  isUrl : isHttpUrl webUrl url = true
  areTags : ∀ tag ∈ tags, IsTag tag
  nodup : tags.Nodup

theorem parseItem_bare {first : Char} {rest : List Char}
    (trimmed : trim (first :: rest) = first :: rest) (notBracket : first ≠ '[')
    (notAngle : first ≠ '<') :
    parseItem webUrl (first :: rest)
      = if isHttpUrl webUrl (first :: rest) then some (first :: rest, none) else none := by
  unfold parseItem
  rw [trimmed]
  split
  · rename_i same
    exact absurd (List.cons.inj same).1 notBracket
  · dsimp only
    split
    · rename_i same
      exact absurd (List.cons.inj same).1 notAngle
    · rfl

theorem trim_tagged_url (lawful : LawfulUrls webUrl) (requested : Requested webUrl url tags) :
    trim (url ++ tags.flatMap tagText) = url ++ tags.flatMap tagText := by
  have solid := solid_of_isHttpUrl requested.isUrl
  have ⟨first, rest, isFirst, _⟩ := lawful.exists_first requested.isUrl
  apply trim_of_tight
  · rw [isFirst]
    intro head isHead
    rw [← Option.some.inj isHead]
    exact solid first (isFirst ▸ mem_cons_self)
  · exact solid_last_tags requested.areTags fun last isLast =>
      solid last (List.mem_of_mem_getLast? isLast)

theorem readLine_url (lawful : LawfulUrls webUrl) (requested : Requested webUrl url tags) :
    readLine webUrl ('-' :: ' ' :: renderItem url none tags) = .feed url none tags 0 '-' := by
  have solid := solid_of_isHttpUrl requested.isUrl
  have lastSolid : ∀ last ∈ url.getLast?, isWhitespace last = false :=
    fun last isLast => solid last (List.mem_of_mem_getLast? isLast)
  have ⟨first, rest, isFirst, plain⟩ := lawful.exists_first requested.isUrl
  have isSplit : splitTrailingTags (url ++ tags.flatMap tagText) = (url, tags) := by
    rw [splitTrailingTags_tags lastSolid requested.areTags,
      splitTrailingTags_of_none (untagged_url lawful requested.isUrl), nil_append]
  have isParsed : parseItem webUrl url = some (url, none) := by
    have isTrimmed : trim url = url := trim_of_tight
      (fun head isHead => solid head (List.mem_of_mem_head? isHead)) lastSolid
    have isUrl := requested.isUrl
    rw [isFirst] at isTrimmed isUrl ⊢
    rw [parseItem_bare isTrimmed (fun same => plain (by simp [same]))
      (fun same => plain (by simp [same])), if_pos isUrl]
  rw [renderItem, readLine_item (trim_tagged_url lawful requested), isSplit]
  dsimp only
  rw [isParsed, deduplicateTags_of_nodup requested.nodup]

theorem parseItem_link {inside : List Char} (trimmed : trim ('[' :: inside) = '[' :: inside) :
    parseItem webUrl ('[' :: inside) = parseLink webUrl inside := by
  unfold parseItem
  rw [trimmed]
  rfl

theorem exists_parseLink (inside : List Char) :
    ∃ part, part <+: inside ∧ parseItem webUrl ('[' :: inside) = parseLink webUrl part := by
  have begins : trim ('[' :: inside) <+: '[' :: inside := rdropWhile_prefix _ _
  have kept : '[' ∈ trim ('[' :: inside) := Trim.mem_trim_of_solid mem_cons_self (by decide)
  cases isTrimmed : trim ('[' :: inside) with
  | nil =>
    rw [isTrimmed] at kept
    exact absurd kept not_mem_nil
  | cons first part =>
    rw [isTrimmed] at begins
    obtain ⟨rfl, isPart⟩ := cons_prefix_cons.1 begins
    refine ⟨part, isPart, ?_⟩
    unfold parseItem
    rw [isTrimmed]
    rfl

def titleLength (title : Option (List Char)) : Nat := (title.map List.length).getD 0

theorem parseLink_eq_some {inside parsedUrl : List Char} {parsedTitle : Option (List Char)}
    (isParsed : parseLink webUrl inside = some (parsedUrl, parsedTitle)) :
    ∃ before after, splitOnce [']', '('] inside = some (before, after)
      ∧ titleLength parsedTitle ≤ before.length := by
  unfold parseLink at isParsed
  split at isParsed
  · exact nomatch isParsed
  · rename_i before after isSplit
    split_ifs at isParsed
    · rw [← (Prod.mk.inj (Option.some.inj isParsed)).2]
      exact ⟨before, after, isSplit, Nat.zero_le _⟩
    · rw [← (Prod.mk.inj (Option.some.inj isParsed)).2]
      exact ⟨before, after, isSplit, Trim.length_trim_le before⟩

theorem trim_tagged_link (areTags : ∀ tag ∈ tags, IsTag tag) (title url : List Char) :
    trim (link title url ++ tags.flatMap tagText) = link title url ++ tags.flatMap tagText := by
  have tight := Trim.trim_eq_self_iff.1 (trim_link title url)
  apply trim_of_tight _ (solid_last_tags areTags tight.2)
  intro first isFirst
  rw [← Option.some.inj isFirst]
  decide

theorem trim_renderItem (lawful : LawfulUrls webUrl) (requested : Requested webUrl url tags)
    (title : Option (List Char)) :
    trim (renderItem url title tags) = renderItem url title tags := by
  cases title with
  | none => exact trim_tagged_url lawful requested
  | some title => exact trim_tagged_link requested.areTags title url

theorem renderItem_ne_nil (lawful : LawfulUrls webUrl) (requested : Requested webUrl url tags)
    (title : Option (List Char)) : renderItem url title tags ≠ [] := by
  cases title with
  | none =>
    have ⟨first, rest, isFirst, _⟩ := lawful.exists_first requested.isUrl
    rw [renderItem, isFirst]
    exact cons_ne_nil _ _
  | some title => exact cons_ne_nil _ _

theorem readLine_link (requested : Requested webUrl url tags) (trimmed : trim title = title)
    (some : title ≠ []) (plain : PlainTitle title) :
    readLine webUrl ('-' :: ' ' :: renderItem url (Option.some title) tags)
      = .feed url (Option.some title) tags 0 '-' := by
  have solid := solid_of_isHttpUrl requested.isUrl
  have tight := Trim.trim_eq_self_iff.1 (trim_link title url)
  have untagged := (untagged_link_iff trimmed solid).2 plain.2
  have isSplit : splitTrailingTags (link title url ++ tags.flatMap tagText)
      = (link title url, tags) := by
    rw [splitTrailingTags_tags tight.2 requested.areTags, splitTrailingTags_of_none untagged,
      nil_append]
  have noBracket : ¬[']', '('] <:+: title := by
    rw [← occurs_iff (by decide), Bool.not_eq_true]
    exact plain.1
  have isParsed : parseItem webUrl (link title url) = Option.some (url, Option.some title) := by
    rw [link, parseItem_link (trim_link title url), parseLink, splitOnce_link_of_plain noBracket]
    dsimp only
    rw [List.getLast?_concat, dropLast_concat, trimmed, if_neg some, if_pos ⟨rfl, requested.isUrl⟩]
  rw [renderItem]
  show readLine webUrl ('-' :: ' ' :: (link title url ++ tags.flatMap tagText)) = _
  rw [readLine_item (trim_tagged_link requested.areTags title url), isSplit]
  dsimp only
  rw [isParsed, deduplicateTags_of_nodup requested.nodup]

theorem titleLength_lt_of_not_plain (lawful : LawfulUrls webUrl)
    (requested : Requested webUrl url tags) (trimmed : trim title = title)
    (notPlain : ¬PlainTitle title) {parsedUrl : List Char} {parsedTitle : Option (List Char)}
    {parsedTags : List (List Char)} {indentLen : Nat} {marker : Char}
    (isRead : readLine webUrl ('-' :: ' ' :: renderItem url (some title) tags)
      = .feed parsedUrl parsedTitle parsedTags indentLen marker) :
    titleLength parsedTitle < title.length := by
  have solid := solid_of_isHttpUrl requested.isUrl
  have tight := Trim.trim_eq_self_iff.1 (trim_link title url)
  have isParsed : parseItem webUrl (splitTrailingTags (link title url)).1
      = some (parsedUrl, parsedTitle) := by
    have isItem : readLine webUrl ('-' :: ' ' :: (link title url ++ tags.flatMap tagText)) = _ :=
      isRead
    rw [readLine_item (trim_tagged_link requested.areTags title url),
      splitTrailingTags_tags tight.2 requested.areTags] at isItem
    dsimp only at isItem
    split at isItem
    · rename_i found isFound
      obtain ⟨rfl, rfl, _⟩ := Reading.feed.inj isItem
      exact isFound
    · split_ifs at isItem
  by_cases tagged : endsInTag title = true
  · -- the tag is split off with the end of the title
    have blanks : title.any isWhitespace = true := by
      rw [endsInTag, Bool.and_eq_true] at tagged
      exact tagged.1
    obtain ⟨before, blank, word, rfl, isBlank, solidWord⟩ := exists_last_blank blanks
    have notUntagged : ¬Untagged (link (before ++ blank :: word) url) := by
      rw [untagged_link_iff trimmed solid, tagged]
      exact fun same => absurd same.symm Bool.false_ne_true
    have ⟨tag, isTag⟩ := Option.ne_none_iff_exists'.1 notUntagged
    rw [splitTrailingTags_of_some isTag, (lastToken_link isBlank solidWord solid).2] at isParsed
    have begins := (kept_begins (trimEnd ('[' :: before))).trans (trimEnd_begins _)
    dsimp only at isParsed
    cases isKept : (splitTrailingTags (trimEnd ('[' :: before))).1 with
    | nil =>
      rw [isKept] at isParsed
      have isNothing : (if isHttpUrl webUrl [] then some ([], none) else none)
          = some (parsedUrl, parsedTitle) := isParsed
      split_ifs at isNothing with isUrl
      have ⟨_, _, isFirst, _⟩ := lawful.exists_first isUrl
      exact nomatch isFirst
    | cons first inside =>
      rw [isKept] at begins isParsed
      obtain ⟨rfl, isInside⟩ := cons_prefix_cons.1 begins
      have ⟨part, isPart, isLink⟩ := @exists_parseLink webUrl inside
      rw [isLink] at isParsed
      have ⟨earlier, after, isSplit, short⟩ := parseLink_eq_some isParsed
      have length := congrArg List.length (append_of_splitOnce isSplit).1
      have partShort := isPart.length_le
      have insideShort := isInside.length_le
      simp only [length_append, length_cons, length_nil] at length ⊢
      omega
  · have bracket : [']', '('] <:+: title := by
      rw [← occurs_iff (by decide)]
      by_contra absent
      exact notPlain ⟨(Bool.not_eq_true _).mp absent, (Bool.not_eq_true _).mp tagged⟩
    have untagged := (untagged_link_iff trimmed solid).2 ((Bool.not_eq_true _).mp tagged)
    rw [splitTrailingTags_of_none untagged, link, parseItem_link (trim_link title url)] at isParsed
    have ⟨before, after, isSplit, short⟩ := parseLink_eq_some isParsed
    have ⟨first, rest, found, atMost, whole⟩ := splitOnce_link title (url ++ [')'])
    rw [found] at isSplit
    obtain ⟨rfl, rfl⟩ := Prod.mk.inj (Option.some.inj isSplit)
    have different : first.length ≠ title.length := fun same => (whole same).1 bracket
    omega

end Items

/-! ### Headings -/

theorem trim_heading {group : List Char} (trimmed : trim group = group) (some : group ≠ []) :
    trim ('#' :: '#' :: ' ' :: group) = '#' :: '#' :: ' ' :: group :=
  @trim_append_of_solid '#' ['#', ' '] group isWhitespace_hash trimmed some

theorem headingText_line {group : List Char} (trimmed : trim group = group) (some : group ≠ []) :
    headingText ('#' :: '#' :: ' ' :: group) = Option.some group := by
  unfold headingText
  rw [trim_heading trimmed some]
  exact congrArg Option.some trimmed

theorem readLine_heading {webUrl : List Char → Bool} {group : List Char}
    (trimmed : trim group = group) (some : group ≠ []) :
    readLine webUrl ('#' :: '#' :: ' ' :: group)
      = .heading (splitTrailingTags group).1 (deduplicateTags (splitTrailingTags group).2) := by
  rw [readLine, headingText_line trimmed some]

end Clepsydra.Feeds
