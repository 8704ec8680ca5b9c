import Clepsydra.Library.Pieces
import Clepsydra.Library.Substring
import Clepsydra.Vault.Canonical

/-!
Owns: the feed manifest: its reading, the checks of what is requested, and the edits.

It has one list item for each feed, below the heading of its group. Positions count characters.
-/

namespace Clepsydra.Feeds

open Library Library.Pieces
open Vault (isWhitespace)

/-! ### Texts -/

def trim (text : List Char) : List Char := Trim.trim isWhitespace text

def trimEnd (text : List Char) : List Char := text.rdropWhile isWhitespace

/-- `to_ascii_lowercase`. -/
def lower (text : List Char) : List Char := text.map Char.toLower

/-- `strip_suffix(last).unwrap_or(text)`. -/
def withoutLast (last : Char) (text : List Char) : List Char :=
  if text.getLast? = some last then text.dropLast else text

def pushUnique (tags : List (List Char)) (tag : List Char) : List (List Char) :=
  if tag ∈ tags then tags else tags ++ [tag]

def deduplicateTags (tags : List (List Char)) : List (List Char) := tags.foldl pushUnique []

/-! ### Lines -/

structure SourceLine where
  number : Nat
  start : Nat
  bodyEnd : Nat
  stop : Nat
  body : List Char

def chunkBody (chunk : List Char) : List Char := withoutLast '\r' (withoutLast '\n' chunk)

def sourceLinesFrom (number start : Nat) : List (List Char) → List SourceLine
  | [] => []
  | chunk :: rest =>
    let body := chunkBody chunk
    ⟨number, start, start + body.length, start + chunk.length, body⟩
      :: sourceLinesFrom (number + 1) (start + chunk.length) rest

/-- `source_lines`. -/
def sourceLines (text : List Char) : List SourceLine :=
  sourceLinesFrom 1 0 (splitInclusive '\n' text)

def IsDelimiter (text : List Char) : Prop := text = ['+', '+', '+'] ∨ text = ['-', '-', '-']

instance (text : List Char) : Decidable (IsDelimiter text) := inferInstanceAs (Decidable (_ ∨ _))

/-- `frontmatter_end`: the last line of all where no line closes it. -/
def frontmatterEnd : List SourceLine → Option Nat
  | [] => none
  | first :: rest =>
    if IsDelimiter (trim first.body) then
      match rest.findIdx? fun line => trim line.body = trim first.body with
      | some index => some (index + 1)
      | none => some rest.length
    else none

/-- `heading_text`. -/
def headingText (line : List Char) : Option (List Char) :=
  match trim line with
  | '#' :: '#' :: ' ' :: heading => some (trim heading)
  | _ => none

structure ListItem where
  content : List Char
  indentLen : Nat
  marker : Char

/-- `list_item`. -/
def listItem (line : List Char) : Option ListItem :=
  let trimmed := line.dropWhile fun character => character = ' ' || character = '\t'
  let indentLen := line.length - trimmed.length
  match trimmed with
  | '-' :: ' ' :: content => some ⟨trim content, indentLen, '-'⟩
  | '*' :: ' ' :: content => some ⟨trim content, indentLen, '*'⟩
  | _ => none

/-- `tag_token`. -/
def tagToken : List Char → Option (List Char)
  | '#' :: tag => if tag ≠ [] ∧ tag.head? ≠ some '#' then some tag else none
  | _ => none

/-- The loop of `split_trailing_tags`; each round takes one token. -/
def splitTagsWithin : Nat → List Char → List Char × List (List Char)
  | 0, text => (text, [])
  | rounds + 1, text =>
    let candidate := trimEnd text
    -- the token behind the last whitespace, which is empty where nothing is left
    let token := candidate.rtakeWhile fun character => !isWhitespace character
    let before := candidate.rdropWhile fun character => !isWhitespace character
    match tagToken token with
    | none => (text, [])
    | some tag =>
      let split := splitTagsWithin rounds (trimEnd before)
      (split.1, split.2 ++ [tag])

/-- `split_trailing_tags`. -/
def splitTrailingTags (text : List Char) : List Char × List (List Char) :=
  splitTagsWithin text.length text

section Reading

variable (webUrl : List Char → Bool)

/-- `is_http_url`; the given predicate is that of a URL with a host. -/
def isHttpUrl (url : List Char) : Bool := !url.any isWhitespace && webUrl url

/-- What `parse_item` reads behind a bracket. -/
def parseLink (link : List Char) : Option (List Char × Option (List Char)) :=
  match splitOnce [']', '('] link with
  | none => none
  | some (title, destination) =>
    if destination.getLast? = some ')' ∧ isHttpUrl webUrl destination.dropLast then
      some (destination.dropLast, if trim title = [] then none else some (trim title))
    else none

/-- `parse_item`. -/
def parseItem (content : List Char) : Option (List Char × Option (List Char)) :=
  match trim content with
  | '[' :: link => parseLink webUrl link
  | content =>
    let url := match content with
      | '<' :: rest => if rest.getLast? = some '>' then rest.dropLast else content
      | _ => content
    if isHttpUrl webUrl url then some (url, none) else none

def occurs (pattern text : List Char) : Bool := (splitOnce pattern text).isSome

/-- `looks_like_feed_item`. -/
def looksLikeFeedItem (content : List Char) : Bool :=
  let content := trim content
  occurs [':', '/', '/'] content
    || (content.head? = some '[' && occurs [']', '('] content)
    || (content.head? = some '<' && content.getLast? = some '>')

inductive Reading where
  | heading (group : List Char) (tags : List (List Char))
  | feed (url : List Char) (title : Option (List Char)) (tags : List (List Char))
      (indentLen : Nat) (marker : Char)
  | malformed (content : List Char)
  | other

def readLine (body : List Char) : Reading :=
  match headingText body with
  | some heading =>
    let split := splitTrailingTags heading
    .heading split.1 (deduplicateTags split.2)
  | none =>
    match listItem body with
    | none => .other
    | some item =>
      let split := splitTrailingTags item.content
      match parseItem webUrl split.1 with
      | some (url, title) =>
        .feed url title (deduplicateTags split.2) item.indentLen item.marker
      | none => if looksLikeFeedItem split.1 then .malformed split.1 else .other

/-! ### The document -/

structure ManifestFeed where
  url : List Char
  titleOverride : Option (List Char)
  group : List Char
  tags : List (List Char)
  line : Nat

structure ManifestWarning where
  line : Nat
  message : String
deriving DecidableEq

structure HeadingLocation where
  lineIndex : Nat
  group : List Char

structure FeedLocation where
  feedIndex : Nat
  lineIndex : Nat
  start : Nat
  bodyEnd : Nat
  stop : Nat
  indentLen : Nat
  marker : Char
  itemTags : List (List Char)

structure ParsedDocument where
  feeds : List ManifestFeed
  warnings : List ManifestWarning
  headings : List HeadingLocation
  locations : List FeedLocation
  currentGroup : List Char
  inheritedTags : List (List Char)
  seenUrls : List (List Char)

def ParsedDocument.empty : ParsedDocument := ⟨[], [], [], [], [], [], []⟩

def ParsedDocument.warn (document : ParsedDocument) (line : SourceLine) (message : String) :
    ParsedDocument :=
  { document with warnings := document.warnings ++ [⟨line.number, message⟩] }

/-- One round of the loop of `parse_document`. -/
def ParsedDocument.step (document : ParsedDocument) (line : SourceLine) (lineIndex : Nat) :
    ParsedDocument :=
  match readLine webUrl line.body with
  | .heading group tags =>
    { document with
      headings := document.headings ++ [⟨lineIndex, group⟩]
      currentGroup := group
      inheritedTags := tags }
  | .other => document
  | .malformed content =>
    document.warn line ("malformed feed item: " ++ String.ofList content)
  | .feed url title tags indentLen marker =>
    if url ∈ document.seenUrls then
      document.warn line ("duplicate feed URL: " ++ String.ofList url)
    else
      { document with
        feeds := document.feeds ++
          [⟨url, title, document.currentGroup, tags.foldl pushUnique document.inheritedTags,
            line.number⟩]
        locations := document.locations ++
          [⟨document.feeds.length, lineIndex, line.start, line.bodyEnd, line.stop, indentLen,
            marker, tags⟩]
        seenUrls := url :: document.seenUrls }

def parseLines (frontmatter : Option Nat) (lineIndex : Nat) (document : ParsedDocument) :
    List SourceLine → ParsedDocument
  | [] => document
  | line :: rest =>
    if frontmatter.any (fun last => lineIndex ≤ last) then
      parseLines frontmatter (lineIndex + 1) document rest
    else parseLines frontmatter (lineIndex + 1) (document.step webUrl line lineIndex) rest

/-- `parse_document`. -/
def parseDocument (text : List Char) : ParsedDocument :=
  let lines := sourceLines text
  parseLines webUrl (frontmatterEnd lines) 0 .empty lines

end Reading

/-! ### Requests -/

inductive FeedError where
  | invalidUrl (url : List Char)
  | invalidGroup
  | invalidTitle
  | invalidTag (tag : List Char)
  | rejected (warnings : List ManifestWarning)
  | notAdded (url : List Char)
  | wrongGroup (group : List Char)
  | wrongTitle (title : Option (List Char))
  | notFound (url : List Char)
  | disappeared (url : List Char)
  | notProduced (url : List Char)
deriving DecidableEq

/-- The text of an error; `debug` is the format `{:?}`. -/
def FeedError.toText (debug : List Char → String) : FeedError → String
  | .invalidUrl url => "invalid feed URL: " ++ String.ofList url
  | .invalidGroup => "feed group must be a non-empty single line"
  | .invalidTitle => "feed title override must be a single line"
  | .invalidTag tag => "invalid feed tag: " ++ debug tag
  | .rejected warnings =>
    "; ".intercalate (warnings.map fun warning =>
      "line " ++ toString warning.line ++ ": " ++ warning.message)
  | .notAdded url => "feed was not added: " ++ String.ofList url
  | .wrongGroup group => "feed was added to the wrong group: " ++ String.ofList group
  | .wrongTitle (some title) =>
    "feed was added with the wrong title override: Some(" ++ debug title ++ ")"
  | .wrongTitle none => "feed was added with the wrong title override: None"
  | .notFound url => "feed not found: " ++ String.ofList url
  | .disappeared url => "feed disappeared while updating: " ++ String.ofList url
  | .notProduced url =>
    "feed update did not produce the requested group and title: " ++ String.ofList url

def isSingleLine (text : List Char) : Bool := !text.contains '\r' && !text.contains '\n'

def validateGroup (group : List Char) : Except FeedError (List Char) :=
  if trim group ≠ [] ∧ isSingleLine (trim group) then .ok (trim group) else .error .invalidGroup

def trimmedTitle (title : Option (List Char)) : Option (List Char) :=
  (title.map trim).filter (· ≠ [])

def validateTitle (title : Option (List Char)) : Except FeedError (Option (List Char)) :=
  if (trimmedTitle title).all isSingleLine then .ok (trimmedTitle title) else .error .invalidTitle

def bareTag (tag : List Char) : List Char := (trim tag).dropWhile (· = '#')

def normalizeTagsFrom (normalized : List (List Char)) :
    List (List Char) → Except FeedError (List (List Char))
  | [] => .ok normalized
  | tag :: rest =>
    if bareTag tag = [] ∨ (bareTag tag).any isWhitespace then .error (.invalidTag (bareTag tag))
    else normalizeTagsFrom (pushUnique normalized (bareTag tag)) rest

def normalizeInputTags (tags : List (List Char)) : Except FeedError (List (List Char)) :=
  normalizeTagsFrom [] tags

def tagText (tag : List Char) : List Char := ' ' :: '#' :: tag

def renderItem (url : List Char) (title : Option (List Char)) (tags : List (List Char)) :
    List Char :=
  (match title with
    | some title => '[' :: (title ++ (']' :: '(' :: (url ++ [')'])))
    | none => url)
  ++ tags.flatMap tagText

/-- `newline_sequence`: that of the first line break. -/
def newlineSequence (text : List Char) : List Char :=
  if '\n' ∈ text ∧ (text.takeWhile (· ≠ '\n')).getLast? = some '\r' then ['\r', '\n'] else ['\n']

def replaceSpan (source : List Char) (start stop : Nat) (replacement : List Char) : List Char :=
  source.take start ++ replacement ++ source.drop stop

def itemLine (item newline : List Char) : List Char := '-' :: ' ' :: (item ++ newline)

def headingLine (group newline : List Char) : List Char := '#' :: '#' :: ' ' :: (group ++ newline)

/-- `append_group`. -/
def appendGroup (source group item newline : List Char) : List Char :=
  let ended := if source ≠ [] ∧ source.getLast? ≠ some '\n' then source ++ newline else source
  let endsWithBlankLine :=
    ['\n', '\n'].isSuffixOf ended || ['\r', '\n', '\r', '\n'].isSuffixOf ended
  let spaced := if source ≠ [] ∧ !endsWithBlankLine then ended ++ newline else ended
  spaced ++ headingLine group newline ++ newline ++ itemLine item newline

section Commands

variable (webUrl : List Char → Bool)

def validateUrl (url : List Char) : Except FeedError Unit :=
  if isHttpUrl webUrl url then .ok () else .error (.invalidUrl url)

def validateCandidate (candidate : List Char) : Except FeedError Unit :=
  let warnings := (parseDocument webUrl candidate).warnings
  if warnings = [] then .ok () else .error (.rejected warnings)

/-- Where `insert_item` inserts below a heading, and whether a line break comes first. -/
def insertionPoint (source : List Char) (document : ParsedDocument) (heading : HeadingLocation) :
    Nat × Bool :=
  let lines := sourceLines source
  let sectionEnd := ((document.headings.find? fun other =>
    heading.lineIndex < other.lineIndex).map HeadingLocation.lineIndex).getD lines.length
  -- the locations stand in the order of their lines
  match (document.locations.filter fun feed =>
      heading.lineIndex < feed.lineIndex && feed.lineIndex < sectionEnd).getLast? with
  | some feed => (feed.stop, feed.stop = feed.bodyEnd)
  | none =>
    let blanks := ((lines.take sectionEnd).drop (heading.lineIndex + 1)).takeWhile
      fun line => trim line.body = []
    match lines[heading.lineIndex + 1 + blanks.length]? with
    | some line => (line.start, false)
    | none => (source.length,
        lines[heading.lineIndex]?.any fun line => line.stop = line.bodyEnd)

/-- `insert_item`. -/
def insertItem (source group item : List Char) : List Char :=
  let document := parseDocument webUrl source
  let newline := newlineSequence source
  match document.headings.find? fun heading => lower heading.group = lower group with
  | none => appendGroup source group item newline
  | some heading =>
    let point := insertionPoint source document heading
    replaceSpan source point.1 point.1 ((if point.2 then newline else []) ++ itemLine item newline)

/-- `add_feed`. -/
def addFeed (source group url : List Char) (titleOverride : Option (List Char))
    (tags : List (List Char)) : Except FeedError (List Char) := do
  let group ← validateGroup group
  validateUrl webUrl url
  let title ← validateTitle titleOverride
  let itemTags ← normalizeInputTags tags
  let candidate := insertItem webUrl source group (renderItem url title itemTags)
  validateCandidate webUrl candidate
  match (parseDocument webUrl candidate).feeds.find? fun feed => feed.url = url with
  | none => .error (.notAdded url)
  | some added =>
    if lower added.group ≠ lower group then .error (.wrongGroup added.group)
    else if added.titleOverride ≠ title then .error (.wrongTitle added.titleOverride)
    else .ok candidate

structure FeedAddition where
  group : List Char
  url : List Char
  titleOverride : Option (List Char)
  tags : List (List Char)

def placeItem {α : Type} (group : List Char) (item : α) :
    List (List Char × List α) → List (List Char × List α)
  | [] => [(group, [item])]
  | (other, items) :: rest =>
    if lower other = lower group then (other, items ++ [item]) :: rest
    else (other, items) :: placeItem group item rest

/-- The first loop of `add_feeds`. -/
def groupAdditions (grouped : List (List Char × List (List Char))) :
    List FeedAddition → Except FeedError (List (List Char × List (List Char)))
  | [] => .ok grouped
  | addition :: rest => do
      let group ← validateGroup addition.group
      validateUrl webUrl addition.url
      let title ← validateTitle addition.titleOverride
      let tags ← normalizeInputTags addition.tags
      groupAdditions (placeItem group (renderItem addition.url title tags) grouped) rest

def appendItems (newline candidate : List Char) (grouped : List Char × List (List Char)) :
    List Char :=
  let ended := if candidate ≠ [] ∧ !newline.isSuffixOf candidate then candidate ++ newline
    else candidate
  let spaced := if candidate ≠ [] then ended ++ newline else ended
  spaced ++ headingLine grouped.1 newline ++ grouped.2.flatMap fun item => itemLine item newline

/-- `add_feeds`. -/
def addFeeds (source : List Char) (additions : List FeedAddition) : Except FeedError (List Char) :=
  if additions.isEmpty then .ok source
  else do
    let grouped ← groupAdditions webUrl [] additions
    let candidate := grouped.foldl (appendItems (newlineSequence source)) source
    validateCandidate webUrl candidate
    pure candidate

def findFeed (document : ParsedDocument) (url : List Char) : Option (ManifestFeed × FeedLocation) :=
  document.locations.findSome? fun location =>
    (document.feeds[location.feedIndex]?.filter fun feed => feed.url = url).map (·, location)

/-- `remove_feed`. -/
def removeFeed (source url : List Char) : Except FeedError (List Char) := do
  validateUrl webUrl url
  match findFeed (parseDocument webUrl source) url with
  | none => .error (.notFound url)
  | some (_, location) =>
    let candidate := replaceSpan source location.start location.stop []
    validateCandidate webUrl candidate
    .ok candidate

/-- `update_feed`. -/
def updateFeed (source url group : List Char) (titleOverride : Option (List Char)) :
    Except FeedError (List Char) := do
  validateUrl webUrl url
  let group ← validateGroup group
  let title ← validateTitle titleOverride
  match findFeed (parseDocument webUrl source) url with
  | none => .error (.notFound url)
  | some (feed, location) =>
    let item := renderItem url title location.itemTags
    let candidate :=
      if lower feed.group = lower group then
        let body := ((sourceLines source)[location.lineIndex]?.map SourceLine.body).getD []
        let replacement := body.take location.indentLen ++ location.marker :: ' ' ::
          (item ++ (source.take location.stop).drop location.bodyEnd)
        replaceSpan source location.start location.stop replacement
      else insertItem webUrl (replaceSpan source location.start location.stop []) group item
    validateCandidate webUrl candidate
    match (parseDocument webUrl candidate).feeds.find? fun feed => feed.url = url with
    | none => .error (.disappeared url)
    | some updated =>
      if lower updated.group ≠ lower group ∨ updated.titleOverride ≠ title then
        .error (.notProduced url)
      else .ok candidate

end Commands

end Clepsydra.Feeds
