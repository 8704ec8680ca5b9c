import Clepsydra.Feeds.Manifest

/-!
Owns: what the lines of a manifest say, apart from how they are collected.

Proves: a manifest has no warnings exactly when no line is malformed and no URL occurs twice, and
then its feeds are those its lines say.
-/

namespace Clepsydra.Feeds

open Library Library.Pieces List Option

/-! ### What readings say -/

structure Context where
  group : List Char
  tags : List (List Char)

def Context.empty : Context := ⟨[], []⟩

def Context.after (context : Context) : Reading → Context
  | .heading group tags => ⟨group, tags⟩
  | _ => context

def Context.afterAll (context : Context) (readings : List Reading) : Context :=
  readings.foldl Context.after context

def feedsFrom (number : Nat) (context : Context) : List Reading → List ManifestFeed
  | [] => []
  | reading :: rest =>
    let later := feedsFrom (number + 1) (context.after reading) rest
    match reading with
    | .feed url title tags _ _ =>
      ⟨url, title, context.group, tags.foldl pushUnique context.tags, number⟩ :: later
    | _ => later

def headingsFrom (index : Nat) : List Reading → List HeadingLocation
  | [] => []
  | .heading group _ :: rest => ⟨index, group⟩ :: headingsFrom (index + 1) rest
  | _ :: rest => headingsFrom (index + 1) rest

def locationsFrom (feedIndex index : Nat) : List (Reading × SourceLine) → List FeedLocation
  | [] => []
  | (.feed _ _ tags indentLen marker, line) :: rest =>
    ⟨feedIndex, index, line.start, line.bodyEnd, line.stop, indentLen, marker, tags⟩
      :: locationsFrom (feedIndex + 1) (index + 1) rest
  | _ :: rest => locationsFrom feedIndex (index + 1) rest

def Reading.url? : Reading → Option (List Char)
  | .feed url _ _ _ _ => some url
  | _ => none

def Reading.IsMalformed : Reading → Prop
  | .malformed _ => True
  | _ => False

structure Clean (readings : List Reading) : Prop where
  formed : ∀ reading ∈ readings, ¬reading.IsMalformed
  nodup : (readings.filterMap Reading.url?).Nodup

theorem feedsFrom_cons_of_none {reading : Reading} (isNone : reading.url? = none) (number : Nat)
    (context : Context) (rest : List Reading) :
    feedsFrom number context (reading :: rest)
      = feedsFrom (number + 1) (context.after reading) rest := by
  cases reading with
  | feed url title tags indentLen marker => exact nomatch isNone
  | heading | malformed | other => rfl

theorem feedsFrom_append (number : Nat) (context : Context) (first second : List Reading) :
    feedsFrom number context (first ++ second) = feedsFrom number context first
      ++ feedsFrom (number + first.length) (context.afterAll first) second := by
  induction first generalizing number context with
  | nil => rfl
  | cons reading rest ih =>
    have shifted : number + (reading :: rest).length = number + 1 + rest.length := by
      rw [length_cons]
      omega
    rw [cons_append, shifted]
    cases reading <;> simp only [feedsFrom, ih, cons_append] <;> rfl

/-! ### The lines that are read -/

def look (webUrl : List Char → Bool) (body : List Char) : List Char × Reading :=
  (trim body, readLine webUrl body)

def behind (delimiter : List Char) : List (List Char × Reading) → List Reading
  | [] => []
  | seen :: rest =>
    .other :: if seen.1 = delimiter then rest.map Prod.snd else behind delimiter rest

def shownOf : List (List Char × Reading) → List Reading
  | [] => []
  | first :: rest =>
    if IsDelimiter first.1 then .other :: behind first.1 rest
    else first.2 :: rest.map Prod.snd

def bodies (text : List Char) : List (List Char) := (splitInclusive '\n' text).map chunkBody

def looks (webUrl : List Char → Bool) (text : List Char) : List (List Char × Reading) :=
  (bodies text).map (look webUrl)

def shown (webUrl : List Char → Bool) (text : List Char) : List Reading :=
  shownOf (looks webUrl text)

@[simp] theorem length_behind (delimiter : List Char) (seen : List (List Char × Reading)) :
    (behind delimiter seen).length = seen.length := by
  induction seen with
  | nil => rfl
  | cons first rest ih =>
    rw [behind]
    split_ifs <;> simp [ih]

@[simp] theorem length_shownOf (seen : List (List Char × Reading)) :
    (shownOf seen).length = seen.length := by
  cases seen with
  | nil => rfl
  | cons first rest =>
    rw [shownOf]
    split_ifs <;> simp

/-! ### The loop -/

theorem lawfulBEq_url : LawfulBEq (List Char) := inferInstance

attribute [local instance] lawfulBEq_url in
def ParsedDocument.note (document : ParsedDocument) (reading : Reading) (line : SourceLine)
    (index : Nat) : ParsedDocument :=
  match reading with
  | .heading group tags =>
    { document with
      headings := document.headings ++ [⟨index, group⟩]
      currentGroup := group
      inheritedTags := tags }
  | .other => document
  | .malformed content =>
    document.warn line ("malformed feed item: " ++ String.ofList content)
  | .feed url title tags indentLen marker =>
    if url ∈ document.seenUrls then
      document.warn line ("duplicate feed URL: " ++ String.ofList url)
    else
      { document with
        feeds := document.feeds ++
          [⟨url, title, document.currentGroup, tags.foldl pushUnique document.inheritedTags,
            line.number⟩]
        locations := document.locations ++
          [⟨document.feeds.length, index, line.start, line.bodyEnd, line.stop, indentLen,
            marker, tags⟩]
        seenUrls := url :: document.seenUrls }

theorem step_eq_note (webUrl : List Char → Bool) (document : ParsedDocument) (line : SourceLine)
    (index : Nat) :
    document.step webUrl line index = document.note (readLine webUrl line.body) line index := by
  unfold ParsedDocument.step ParsedDocument.note
  cases readLine webUrl line.body <;> rfl

def noteAll (document : ParsedDocument) (index : Nat) : List (Reading × SourceLine) → ParsedDocument
  | [] => document
  | (reading, line) :: rest => noteAll (document.note reading line index) (index + 1) rest

section Loop

variable (webUrl : List Char → Bool)

theorem parseLines_visible {frontmatter : Option Nat} {index : Nat}
    (passed : ∀ last ∈ frontmatter, last < index) (document : ParsedDocument)
    (lines : List SourceLine) :
    parseLines webUrl frontmatter index document lines = noteAll document index
        (((lines.map fun line => look webUrl line.body).map Prod.snd).zip lines) := by
  induction lines generalizing index document with
  | nil => rfl
  | cons line rest ih =>
    have visible : ¬(frontmatter.any fun last => index ≤ last) = true := by
      cases frontmatter with
      | none => exact Bool.false_ne_true
      | some last =>
        have before := passed last rfl
        simp only [any_some, decide_eq_true_eq]
        omega
    rw [parseLines, if_neg visible, ih fun last isLast => by
      have before := passed last isLast
      omega, step_eq_note]
    rfl

theorem parseLines_behind {delimiter : List Char} {last index : Nat} {lines : List SourceLine}
    (closed : ∀ offset ∈ lines.findIdx? (fun line => trim line.body = delimiter),
      last = index + offset)
    (unclosed : lines.findIdx? (fun line => trim line.body = delimiter) = none →
      index + lines.length ≤ last + 1) (document : ParsedDocument) :
    parseLines webUrl (some last) index document lines = noteAll document index
        ((behind delimiter (lines.map fun line => look webUrl line.body)).zip lines) := by
  induction lines generalizing index document with
  | nil => rfl
  | cons line rest ih =>
    rw [findIdx?_cons] at closed unclosed
    have hidden : ((some last).any fun other => index ≤ other) = true := by
      simp only [any_some, decide_eq_true_eq]
      split_ifs at closed unclosed
      · have here := closed 0 rfl
        omega
      · cases found : rest.findIdx? (fun line => trim line.body = delimiter) with
        | some offset =>
          have there := closed (offset + 1) (by rw [found]; rfl)
          omega
        | none =>
          have beyond := unclosed (by rw [found]; rfl)
          rw [length_cons] at beyond
          omega
    rw [parseLines, if_pos hidden, map_cons, behind]
    show _ = noteAll document (index + 1) _
    by_cases closes : trim line.body = delimiter
    · have here := closed 0 (by simp [closes])
      have isLast : (look webUrl line.body).1 = delimiter := closes
      have passed : ∀ other ∈ some last, other < index + 1 := by
        intro other isOther
        rw [← some.inj isOther]
        omega
      rw [if_pos isLast, parseLines_visible webUrl passed]
      rfl
    · have isInside : (look webUrl line.body).1 ≠ delimiter := closes
      rw [if_neg isInside]
      rw [if_neg (by simp [closes])] at closed unclosed
      apply ih
      · intro offset found
        have there := closed (offset + 1) (by rw [mem_def.1 found]; rfl)
        omega
      · intro none
        have beyond := unclosed (by rw [none]; rfl)
        rw [length_cons] at beyond
        omega

theorem parseLines_eq (lines : List SourceLine) (document : ParsedDocument) :
    parseLines webUrl (frontmatterEnd lines) 0 document lines
      = noteAll document 0 ((shownOf (lines.map fun line => look webUrl line.body)).zip lines) := by
  cases lines with
  | nil => rfl
  | cons first rest =>
    rw [frontmatterEnd, map_cons, shownOf]
    by_cases opens : IsDelimiter (trim first.body)
    · have isOpened : IsDelimiter (look webUrl first.body).1 := opens
      rw [if_pos opens, if_pos isOpened, parseLines]
      split
      · rename_i offset found
        rw [if_pos (by simp)]
        apply parseLines_behind
        · intro other isOther
          rw [← some.inj (found.symm.trans isOther)]
          omega
        · intro none
          exact nomatch found.symm.trans none
      · rename_i absent
        rw [if_pos (by simp)]
        apply parseLines_behind
        · intro other isOther
          exact nomatch absent.symm.trans isOther
        · intro _
          omega
    · have notOpened : ¬IsDelimiter (look webUrl first.body).1 := opens
      rw [if_neg opens, if_neg notOpened]
      exact parseLines_visible webUrl (fun _ isNone => absurd isNone (by simp)) document
        (first :: rest)

theorem body_sourceLinesFrom (number start : Nat) (chunks : List (List Char)) :
    (sourceLinesFrom number start chunks).map SourceLine.body = chunks.map chunkBody := by
  induction chunks generalizing number start with
  | nil => rfl
  | cons chunk rest ih =>
    rw [sourceLinesFrom, map_cons, map_cons, ih]

theorem body_sourceLines (text : List Char) :
    (sourceLines text).map SourceLine.body = bodies text :=
  body_sourceLinesFrom 1 0 _

theorem parseDocument_eq (text : List Char) : parseDocument webUrl text
      = noteAll .empty 0 ((shown webUrl text).zip (sourceLines text)) := by
  have seen : (sourceLines text).map (fun line => look webUrl line.body) = looks webUrl text := by
    rw [looks, ← body_sourceLines, List.map_map]
    rfl
  rw [parseDocument, parseLines_eq, seen]
  rfl

end Loop

/-! ### What is collected -/

theorem Clean.of_append_left {first second : List Reading} (clean : Clean (first ++ second)) :
    Clean first := by
  refine ⟨fun reading among => clean.formed reading (mem_append_left _ among), ?_⟩
  have nodup := clean.nodup
  rw [filterMap_append] at nodup
  exact (nodup_append.1 nodup).1

theorem warn_ne_nil {document : ParsedDocument} {line : SourceLine} {message : String} :
    (document.warn line message).warnings ≠ [] := by
  simp [ParsedDocument.warn]

theorem clean_nil : Clean [] := ⟨nofun, nodup_nil⟩

theorem clean_cons_iff {reading : Reading} {rest : List Reading} :
    Clean (reading :: rest) ↔ ¬reading.IsMalformed ∧ Clean rest
      ∧ ∀ url ∈ reading.url?, url ∉ rest.filterMap Reading.url? := by
  constructor
  · intro clean
    have nodup := clean.nodup
    refine ⟨clean.formed reading mem_cons_self,
      ⟨fun later among => clean.formed later (mem_cons_of_mem _ among), ?_⟩, ?_⟩
    · rw [filterMap_cons] at nodup
      split at nodup
      · exact nodup
      · exact nodup.of_cons
    · intro url isUrl
      rw [filterMap_cons_some isUrl] at nodup
      exact (nodup_cons.1 nodup).1
  · intro ⟨formed, clean, fresh⟩
    refine ⟨forall_mem_cons.2 ⟨formed, clean.formed⟩, ?_⟩
    rw [filterMap_cons]
    split
    · exact clean.nodup
    · rename_i url isUrl
      exact nodup_cons.2 ⟨fresh url isUrl, clean.nodup⟩

theorem noteAll_warnings (document : ParsedDocument) (index : Nat)
    (pairs : List (Reading × SourceLine)) :
    (noteAll document index pairs).warnings = [] ↔ document.warnings = []
      ∧ Clean (pairs.map Prod.fst)
      ∧ ∀ url ∈ (pairs.map Prod.fst).filterMap Reading.url?, url ∉ document.seenUrls := by
  induction pairs generalizing document index with
  | nil => exact ⟨fun none => ⟨none, clean_nil, nofun⟩, fun all => all.1⟩
  | cons pair rest ih =>
    have ⟨reading, line⟩ := pair
    have later := ih (document.note reading line index) (index + 1)
    rw [noteAll, later, map_cons, clean_cons_iff, filterMap_cons]
    cases reading with
    | heading | other => simp [ParsedDocument.note, Reading.IsMalformed, Reading.url?]
    | malformed content =>
      simp [ParsedDocument.note, ParsedDocument.warn, Reading.IsMalformed]
    | feed url title tags indentLen marker =>
      by_cases seen : url ∈ document.seenUrls
      · simp [ParsedDocument.note, ParsedDocument.warn, Reading.url?, seen]
      · simp only [ParsedDocument.note, if_neg seen, Reading.IsMalformed, Reading.url?,
          mem_some_iff, mem_cons, not_or]
        grind

theorem noteAll_collected {document : ParsedDocument} {number start index : Nat}
    {readings : List Reading} {chunks : List (List Char)}
    (aligned : readings.length = chunks.length)
    (clean : (noteAll document index
      (readings.zip (sourceLinesFrom number start chunks))).warnings = []) :
    let lines := readings.zip (sourceLinesFrom number start chunks)
    let collected := noteAll document index lines
    collected.feeds = document.feeds
        ++ feedsFrom number ⟨document.currentGroup, document.inheritedTags⟩ readings
      ∧ collected.headings = document.headings ++ headingsFrom index readings
      ∧ collected.locations = document.locations
        ++ locationsFrom document.feeds.length index lines := by
  induction chunks generalizing document number start index readings with
  | nil =>
    rw [length_eq_zero_iff.1 aligned]
    simp [noteAll, feedsFrom, headingsFrom, locationsFrom]
  | cons chunk chunks ih =>
    cases readings with
    | nil => exact nomatch aligned
    | cons reading readings =>
      have restAligned : readings.length = chunks.length := Nat.succ.inj aligned
      rw [sourceLinesFrom, zip_cons_cons, noteAll] at clean
      have ⟨feeds, headings, locations⟩ := ih restAligned clean
      rw [noteAll_warnings] at clean
      dsimp only at feeds headings locations ⊢
      rw [sourceLinesFrom, zip_cons_cons, noteAll, feeds, headings, locations]
      cases reading with
      | heading | other =>
        simp [ParsedDocument.note, feedsFrom, headingsFrom, locationsFrom, Context.after]
      | malformed content =>
        exact absurd clean.1 warn_ne_nil
      | feed url title tags indentLen marker =>
        by_cases seen : url ∈ document.seenUrls
        · have warned := clean.1
          rw [ParsedDocument.note, if_pos seen] at warned
          exact absurd warned warn_ne_nil
        · simp [ParsedDocument.note, seen, feedsFrom, headingsFrom, locationsFrom, Context.after]

section Document

variable {webUrl : List Char → Bool} {text : List Char}

theorem length_shown : (shown webUrl text).length = (bodies text).length := by
  rw [shown, length_shownOf, looks, length_map]

theorem length_bodies : (bodies text).length = (splitInclusive '\n' text).length := length_map _

theorem length_sourceLines : (sourceLines text).length = (bodies text).length := by
  rw [← body_sourceLines, length_map]

theorem parseDocument_warnings :
    (parseDocument webUrl text).warnings = [] ↔ Clean (shown webUrl text) := by
  have aligned : (shown webUrl text).length ≤ (sourceLines text).length := by
    rw [length_shown, length_sourceLines]
  rw [parseDocument_eq, noteAll_warnings, map_fst_zip aligned]
  simp [ParsedDocument.empty]

theorem parseDocument_collected (clean : (parseDocument webUrl text).warnings = []) :
    (parseDocument webUrl text).feeds = feedsFrom 1 .empty (shown webUrl text)
      ∧ (parseDocument webUrl text).headings = headingsFrom 0 (shown webUrl text)
      ∧ (parseDocument webUrl text).locations
        = locationsFrom 0 0 ((shown webUrl text).zip (sourceLines text)) := by
  rw [parseDocument_eq] at clean ⊢
  have ⟨feeds, headings, locations⟩ := noteAll_collected (length_shown.trans length_bodies) clean
  exact ⟨feeds, headings, locations⟩

theorem parseDocument_feeds (clean : (parseDocument webUrl text).warnings = []) :
    (parseDocument webUrl text).feeds = feedsFrom 1 .empty (shown webUrl text) :=
  (parseDocument_collected clean).1

end Document

end Clepsydra.Feeds
