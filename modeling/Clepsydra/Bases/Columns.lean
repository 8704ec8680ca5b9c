import Clepsydra.Bases.Index
import Clepsydra.Bases.Prepared

/-!
Owns: the value a column shows of a page, taken from the index and taken from the page file, and the
excerpt of a body that both show.

Proves: which columns have one value in both.
-/

namespace Clepsydra.Bases

open Library Vault List Option

/-! ### Excerpts -/

inductive MarkdownEvent where
  | text (text : String)
  | code (text : String)
  | inlineMath (text : String)
  | displayMath (text : String)
  | footnoteReference (label : String)
  | softBreak
  | hardBreak
  | rule
  /-- The end of a block of the text, or of a part of one. -/
  | endBlock
  | other

def bodyExcerptMaxChars : Nat := 240

structure Excerpt where
  text : List Char
  scalarCount : Nat
  pendingSpace : Bool

namespace Excerpt

def empty : Excerpt := ⟨[], 0, false⟩

def push (excerpt : Excerpt) (character : Char) : Excerpt :=
  { excerpt with text := excerpt.text ++ [character], scalarCount := excerpt.scalarCount + 1 }

def pend (excerpt : Excerpt) : Excerpt :=
  { excerpt with pendingSpace := excerpt.pendingSpace || !excerpt.text.isEmpty }

def isFull (excerpt : Excerpt) : Bool := excerpt.scalarCount > bodyExcerptMaxChars

def settle (excerpt : Excerpt) : Excerpt :=
  if excerpt.pendingSpace then { excerpt.push ' ' with pendingSpace := false } else excerpt

/-- `append_excerpt_text`, and whether the excerpt is full. -/
def append (excerpt : Excerpt) : List Char → Excerpt × Bool
  | [] => (excerpt, false)
  | character :: rest =>
    if isWhitespace character then excerpt.pend.append rest
    else if excerpt.pendingSpace && excerpt.settle.isFull then (excerpt.settle, true)
    else
      let pushed := excerpt.settle.push character
      if pushed.isFull then (pushed, true) else pushed.append rest

def take (excerpt : Excerpt) : MarkdownEvent → Excerpt × Bool
  | .text text | .code text | .inlineMath text | .displayMath text => excerpt.append text.toList
  | .footnoteReference label => excerpt.append label.toList
  | .softBreak | .hardBreak | .rule | .endBlock => (excerpt.pend, false)
  | .other => (excerpt, false)

def collect (excerpt : Excerpt) : List MarkdownEvent → Excerpt
  | [] => excerpt
  | event :: rest =>
    let taken := excerpt.take event
    if taken.2 then taken.1 else taken.1.collect rest

end Excerpt

section Shown

variable (events : String → List MarkdownEvent)

def bodyExcerpt (markdown : String) : String :=
  let excerpt := Excerpt.empty.collect (events markdown)
  if excerpt.isFull then String.ofList (excerpt.text.take (bodyExcerptMaxChars - 1) ++ ['…'])
  else String.ofList excerpt.text

/-! ### From the page file -/

def optionalString : Option String → Bool × Option JsonValue
  | some value => (true, some (.string value))
  | none => (false, none)

def countValue (count : Nat) : JsonValue := .number (.posInt (UInt64.ofNat count))

/-- `page_journal_date`, which is `extract_journal_date` a second time. -/
def pageJournalDate (path : String) : Option String := extractJournalDate path

/-- `project_page_field_value`: whether the page has the field, and its value. -/
def projectPageFieldValue (page : Page) : ProjectionFieldIdentity → Bool × Option JsonValue
  | .system .id => (true, some (.string page.frontmatter.id.toText))
  | .system .path => (true, some (.string page.path.asStr))
  | .system .title => optionalString page.frontmatter.title
  | .system .kind => (true, some (.string page.kind.1.asStr))
  | .system .project => optionalString page.frontmatter.project
  | .system .tags =>
    (true, some (jsonStrings (page.kind.1.effectiveTags page.frontmatter.tags)))
  | .system .aliases =>
    if page.frontmatter.aliases.isEmpty then (false, none)
    else (true, some (jsonStrings page.frontmatter.aliases))
  | .system .createdAt => optionalString (page.frontmatter.createdAt.map Instant.toRfc3339)
  | .system .updatedAt => optionalString (page.frontmatter.updatedAt.map Instant.toRfc3339)
  | .system .encryption => (true, some (.bool page.isEncrypted))
  | .system .journalDate => optionalString (pageJournalDate page.path.asStr)
  | .system .wordCount =>
    if page.isEncrypted then (false, none) else (true, some (countValue (wordCount page.body)))
  | .property key =>
    match page.frontmatter.extra.value key with
    | some value => (true, some (tomlValueToJson value))
    | none => (false, none)
  | .body =>
    if page.isEncrypted then (false, none)
    else
      let excerpt := bodyExcerpt events page.body
      if excerpt = "" then (false, none) else (true, some (.string excerpt))

end Shown

/-! ### From the index -/

/-- The numbers that are read back: of what `json_quote` writes, and of an array or an object. -/
structure JsonTexts where
  quoted : SerdeNumber → SerdeNumber
  reread : SerdeNumber → SerdeNumber

namespace JsonTexts

variable (texts : JsonTexts)

mutual

def parsed : JsonValue → JsonValue
  | .number number => .number (texts.reread number)
  | .array items => .array (parsedItems items)
  | .object entries => .object (parsedEntries entries)
  | value => value

def parsedItems : List JsonValue → List JsonValue
  | [] => []
  | item :: rest => parsed item :: parsedItems rest

def parsedEntries : List (String × JsonValue) → List (String × JsonValue)
  | [] => []
  | (key, value) :: rest => (key, parsed value) :: parsedEntries rest

end

mutual

def KeepsWithin : JsonValue → Prop
  | .number number => texts.reread number = number
  | .array items => KeepsItems items
  | .object entries => KeepsEntries entries
  | _ => True

def KeepsItems : List JsonValue → Prop
  | [] => True
  | item :: rest => KeepsWithin item ∧ KeepsItems rest

def KeepsEntries : List (String × JsonValue) → Prop
  | [] => True
  | (_, value) :: rest => KeepsWithin value ∧ KeepsEntries rest

end

def Keeps : JsonValue → Prop
  | .number number => texts.quoted number = number
  | value => texts.KeepsWithin value

end JsonTexts

/-- `PROPERTY_VALUE_SELECT`, parsed. -/
def propertyValue (texts : JsonTexts) (metaJson : List (String × JsonValue)) (key : String) :
    JsonValue :=
  match metaJson.lookup key with
  | none => .null
  -- booleans are spelled out
  | some (.bool flag) => .bool flag
  | some (.array items) => texts.parsed (.array items)
  | some (.object entries) => texts.parsed (.object entries)
  -- `json_quote`
  | some (.number number) => .number (texts.quoted number)
  | some (.string text) => .string text
  | some .null => .null

/-- `sql_value_to_json` of a text column. -/
def textValue : Option String → JsonValue
  | some text => .string text
  | none => .null

def systemValue (row : PageRow) : SysField → JsonValue
  | .id => .string row.id
  | .path => .string row.path
  | .title => textValue row.title
  | .kind => .string row.kind
  | .project => textValue row.project
  | .createdAt => textValue row.createdAt
  | .updatedAt => textValue row.updatedAt
  | .encryption => .bool row.encrypted
  | .journalDate => textValue row.journalDate
  | .wordCount =>
    match row.wordCount with
    | some count => countValue count
    | none => .null
  | .tags | .aliases => .null

section Fetch

variable (texts : JsonTexts) (events : String → List MarkdownEvent) (index : Index)
  (ctx : QueryContext)

def bodyValue (page : StoredPage) : JsonValue :=
  if page.row.encrypted then .null
  else
    match index.bodies.get page.row.id with
    | some body => .string (bodyExcerpt events body.2)
    | none => .null

/-- `json_extract(p.meta_json, '$.aliases')`, parsed. -/
def aliasesValue (page : StoredPage) : JsonValue :=
  match page.metaJson.lookup "aliases" with
  | some value => texts.parsed value
  | none => .null

inductive ColumnSource where
  | body
  | tags
  | aliases
  | system (sys : SysField)
  | property (key : String)

def columnSource (name : String) : Except QueryError ColumnSource :=
  if name = "body" then .ok .body
  else
    match resolveField name ctx with
    | .error error => .error error
    | .ok (.sys .tags) => .ok .tags
    | .ok (.sys .aliases) => .ok .aliases
    | .ok (.sys sys) => .ok (.system sys)
    | .ok (.prop key _) => .ok (.property key)

def columnValue (page : StoredPage) : ColumnSource → JsonValue
  | .body => bodyValue events index page
  | .tags => jsonStrings (index.tagsOf page.row.id)
  | .aliases => aliasesValue texts page
  | .system sys => systemValue page.row sys
  | .property key => propertyValue texts page.metaJson key

/-- What `fetch_rows` selects for a column. -/
def fetchColumn (page : StoredPage) (name : String) : Except QueryError JsonValue :=
  (columnSource ctx name).map (columnValue texts events index page)

def planColumns (names : List String) : Except QueryError (List (String × ColumnSource)) :=
  names.mapM fun name => (columnSource ctx name).map fun source => (name, source)

def ColumnSource.isFixed : ColumnSource → Bool
  | .system _ => true
  | _ => false

def showColumns (plan : List (String × ColumnSource)) (page : StoredPage) : ExtraMap JsonValue :=
  let fixed := plan.filter fun column => column.2.isFixed
  let appended := plan.filter fun column => !column.2.isFixed
  ((fixed ++ appended).map fun column =>
    (column.1, columnValue texts events index page column.2)).foldl
      (fun columns column => columns.insert column.1 column.2) .empty

end Fetch

/-! ### The stored frontmatter -/

theorem lookup_optionalEntry (key : String) (value : Option JsonValue) (wanted : String) :
    (optionalEntry key value).lookup wanted = if wanted = key then value else none := by
  cases value with
  | none => simp [optionalEntry]
  | some value =>
    by_cases same : wanted = key
    · simp [optionalEntry, same]
    · have different : (wanted == key) = false := beq_false_of_ne same
      simp [optionalEntry, same, List.lookup, different]

theorem lookup_optionalEntries {fields : List (String × Option JsonValue)}
    (distinct : (fields.map Prod.fst).Nodup) (key : String) :
    (fields.flatMap fun field => optionalEntry field.1 field.2).lookup key
      = (fields.lookup key).join := by
  induction fields with
  | nil => rfl
  | cons first rest ih =>
    have ⟨name, value⟩ := first
    rw [map_cons, nodup_cons] at distinct
    rw [flatMap_cons, lookup_append, lookup_optionalEntry, ih distinct.2]
    by_cases same : key = name
    · have missing : rest.lookup key = none := by
        rw [lookup_eq_none_iff]
        intro field among
        refine bne_iff_ne.2 fun again => distinct.1 ?_
        exact List.mem_map.2 ⟨field, among, again.symm.trans same⟩
      rw [if_pos same, missing, same]
      cases value <;> simp [List.lookup]
    · have different : (key == name) = false := beq_false_of_ne same
      rw [if_neg same, List.lookup, different]
      rfl

theorem lookup_rows (rows : List (String × TomlValue)) (key : String) :
    (rows.map fun row => (row.1, tomlValueToJson row.2)).lookup key
      = ((rows.find? fun row => row.1 = key).map Prod.snd).map tomlValueToJson := by
  induction rows with
  | nil => rfl
  | cons first rest ih =>
    by_cases same : first.1 = key
    · simp [same]
    · have different : (key == first.1) = false := beq_false_of_ne fun other => same other.symm
      simp only [map_cons, List.lookup, different, find?_cons, same, decide_false]
      exact ih

theorem systemFields_distinct (page : PageMeta Instant TomlValue) :
    ((systemFields page).map Prod.fst).Nodup := by
  show systemKeys.Nodup
  decide

theorem lookup_serializePageMeta (page : PageMeta Instant TomlValue) (key : String) :
    (serializePageMeta page).lookup key
      = ((systemFields page).lookup key).join.or ((page.extra.value key).map tomlValueToJson) := by
  unfold serializePageMeta
  rw [lookup_append, lookup_optionalEntries (systemFields_distinct page), lookup_rows]
  rfl

theorem lookup_systemFields_of_other (page : PageMeta Instant TomlValue) {key : String}
    (notSystem : key ∉ systemKeys) : (systemFields page).lookup key = none := by
  rw [lookup_eq_none_iff]
  intro field among
  refine bne_iff_ne.2 fun same => notSystem ?_
  rw [same]
  exact List.mem_map_of_mem among

theorem lookup_extra (page : PageMeta Instant TomlValue) {key : String}
    (notSystem : key ∉ systemKeys) :
    (serializePageMeta page).lookup key = (page.extra.value key).map tomlValueToJson := by
  rw [lookup_serializePageMeta, lookup_systemFields_of_other page notSystem]
  rfl

theorem lookup_aliases (page : Page) : (serializePageMeta page.frontmatter).lookup "aliases"
      = if page.frontmatter.aliases.isEmpty then none
        else some (jsonStrings page.frontmatter.aliases) := by
  have field : (systemFields page.frontmatter).lookup "aliases"
      = some (if page.frontmatter.aliases.isEmpty then none
          else some (jsonStrings page.frontmatter.aliases)) := by
    simp [systemFields, List.lookup]
  rw [lookup_serializePageMeta, field, page.extraOnly "aliases" (by decide), map_none,
    or_none]
  rfl

theorem projected_property (events : String → List MarkdownEvent) (page : Page) (key : String) :
    (projectPageFieldValue events page (.property key)).2
      = (page.frontmatter.extra.value key).map tomlValueToJson := by
  dsimp only [projectPageFieldValue]
  cases page.frontmatter.extra.value key <;> rfl

theorem projected_body (events : String → List MarkdownEvent) (page : Page) :
    (projectPageFieldValue events page .body).2
      = if page.isEncrypted = true ∨ bodyExcerpt events page.body = "" then none
        else some (.string (bodyExcerpt events page.body)) := by
  dsimp only [projectPageFieldValue]
  by_cases encrypted : page.isEncrypted = true
  · rw [if_pos encrypted, if_pos (Or.inl encrypted)]
  · by_cases empty : bodyExcerpt events page.body = ""
    · rw [if_neg encrypted, if_pos empty, if_pos (Or.inr empty)]
    · rw [if_neg encrypted, if_neg empty, if_neg fun either => either.elim encrypted empty]

namespace JsonTexts

variable {texts : JsonTexts}

mutual

theorem parsed_of_keeps : ∀ {value : JsonValue}, texts.KeepsWithin value → texts.parsed value = value
  | .number _, kept => congrArg JsonValue.number kept
  | .array _, kept => congrArg JsonValue.array (parsedItems_of_keeps kept)
  | .object _, kept => congrArg JsonValue.object (parsedEntries_of_keeps kept)
  | .null, _ => rfl
  | .bool _, _ => rfl
  | .string _, _ => rfl

theorem parsedItems_of_keeps :
    ∀ {items : List JsonValue}, texts.KeepsItems items → texts.parsedItems items = items
  | [], _ => rfl
  | item :: rest, kept => by
    rw [parsedItems, parsed_of_keeps kept.1, parsedItems_of_keeps kept.2]

theorem parsedEntries_of_keeps : ∀ {entries : List (String × JsonValue)},
    texts.KeepsEntries entries → texts.parsedEntries entries = entries
  | [], _ => rfl
  | (key, value) :: rest, kept => by
    rw [parsedEntries, parsed_of_keeps kept.1, parsedEntries_of_keeps kept.2]

end

theorem keepsWithin_jsonStrings (strings : List String) :
    texts.KeepsWithin (jsonStrings strings) := by
  unfold jsonStrings
  rw [KeepsWithin]
  induction strings with
  | nil => trivial
  | cons first rest ih => exact ⟨trivial, ih⟩

end JsonTexts

section Agreement

variable {texts : JsonTexts} {events : String → List MarkdownEvent} {unicode : Unicode}
  {index : Index} {ctx : QueryContext} {page : Page}

theorem propertyValue_stored {key : String} (notSystem : key ∉ systemKeys)
    (kept : ∀ value, page.frontmatter.extra.value key = some value →
      texts.Keeps (tomlValueToJson value)) :
    propertyValue texts (page.stored unicode).metaJson key
      = (projectPageFieldValue events page (.property key)).2.getD .null := by
  unfold propertyValue Page.stored
  rw [lookup_extra _ notSystem, projected_property]
  cases found : page.frontmatter.extra.value key with
  | none => rfl
  | some value =>
    have keeps := kept value found
    dsimp only [map_some, getD_some]
    cases shown : tomlValueToJson value with
    | number number =>
      rw [shown] at keeps
      exact congrArg JsonValue.number keeps
    | array | object =>
      rw [shown] at keeps
      exact JsonTexts.parsed_of_keeps keeps
    | null | bool _ | string _ => rfl

theorem aliasesValue_stored : aliasesValue texts (page.stored unicode)
      = (projectPageFieldValue events page (.system .aliases)).2.getD .null := by
  unfold aliasesValue projectPageFieldValue Page.stored
  rw [lookup_aliases]
  by_cases empty : page.frontmatter.aliases.isEmpty = true
  · rw [if_pos empty, if_pos empty]
    rfl
  · rw [if_neg empty, if_neg empty]
    exact JsonTexts.parsed_of_keeps (JsonTexts.keepsWithin_jsonStrings _)

theorem tags_stored (holds : index.Holds unicode page) :
    jsonStrings (index.tagsOf (page.stored unicode).row.id)
      = (projectPageFieldValue events page (.system .tags)).2.getD .null :=
  congrArg jsonStrings holds.tagsOf

theorem textValue_optionalString (value : Option String) :
    textValue value = (optionalString value).2.getD .null := by
  cases value <;> rfl

theorem columnValue_stored {sys : SysField} (scalar : sys.column.isSome = true) :
    columnValue texts events index (page.stored unicode) (.system sys)
      = (projectPageFieldValue events page (.system sys)).2.getD .null := by
  cases sys with
  | id | path | kind | encryption => rfl
  | title | project | createdAt | updatedAt | journalDate => exact textValue_optionalString _
  | wordCount =>
    unfold columnValue systemValue projectPageFieldValue Page.stored
    by_cases encrypted : page.isEncrypted = true
    · simp only [encrypted, if_true]
      rfl
    · simp only [encrypted]
      rfl
  | tags | aliases => exact absurd scalar (by decide)

theorem bodyValue_stored (holds : index.Holds unicode page)
    (shown : page.isEncrypted = false → bodyExcerpt events page.body ≠ "") :
    bodyValue events index (page.stored unicode)
      = (projectPageFieldValue events page .body).2.getD .null := by
  rw [projected_body]
  unfold bodyValue
  by_cases encrypted : page.isEncrypted = true
  · rw [if_pos (show (page.stored unicode).row.encrypted = true from encrypted), if_pos (Or.inl encrypted)]
    rfl
  · have found : index.bodies.get (page.stored unicode).row.id
        = some (page.frontmatter.id.toText, page.indexedBody) := Table.get_of_mem holds.body
    have excerpt := shown (Bool.eq_false_of_not_eq_true encrypted)
    rw [if_neg (show ¬(page.stored unicode).row.encrypted = true from encrypted), found,
      if_neg fun none => none.elim encrypted excerpt]
    dsimp only
    rw [Page.indexedBody, if_neg encrypted]
    rfl

/-- The source of a field that is not called `body`. -/
def ProjectionFieldIdentity.source : ProjectionFieldIdentity → Except QueryError ColumnSource
  | .system .tags => .ok .tags
  | .system .aliases => .ok .aliases
  | .system sys => .ok (.system sys)
  | .property key => .ok (.property key)
  | .body => .error .projectionOnlyBody

theorem columnSource_of_resolves {name : String} {identity : ProjectionFieldIdentity}
    (notBody : name ≠ "body") (resolves : resolveProjectionField name = .ok identity) :
    columnSource ctx name = identity.source := by
  unfold columnSource
  rw [if_neg notBody, resolveField_eq, Fallible.bind_of_eq_ok resolves]
  cases identity with
  | system sys => cases sys <;> rfl
  | property key => rfl
  | body => rfl

theorem body_spellings {name : String} (resolves : resolveProjectionField name = .ok .body) :
    name = "body" ∨ name = "sys.body" ∨ name = "prop.body" := by
  have isBody : isBodyFieldReference name = true := by
    by_contra other
    rw [resolveProjectionField, if_neg other] at resolves
    cases system : stripStart "sys." name with
    | some field =>
      simp only [system] at resolves
      cases known : SysField.fromName field <;> simp [known] at resolves
    | none =>
      cases property : stripStart "prop." name with
      | some field => simp [system, property] at resolves
      | none => cases known : SysField.fromName name <;> simp [system, property, known] at resolves
  simp only [isBodyFieldReference, Bool.or_eq_true, beq_iff_eq] at isBody
  rcases isBody with (bare | system) | property
  · exact Or.inl bare
  · exact Or.inr (Or.inl (append_of_stripStart system))
  · exact Or.inr (Or.inr (append_of_stripStart property))

theorem value_of_showColumns {row : StoredPage} {names : List String}
    {plan : List (String × ColumnSource)} (planned : planColumns ctx names = .ok plan)
    {name : String} (among : name ∈ names) {value : JsonValue}
    (fetched : fetchColumn texts events index ctx row name = .ok value) :
    (showColumns texts events index plan row).value name = some value := by
  have each := Fallible.forall₂_of_mapM_eq_ok planned
  apply ExtraMap.value_foldl_insert
  · intro entry shown sameName
    obtain ⟨column, inEither, rfl⟩ := List.mem_map.1 shown
    have inPlan : column ∈ plan := (mem_append.1 inEither).elim mem_of_mem_filter mem_of_mem_filter
    have ⟨other, _, success⟩ := Fallible.exists_of_forall₂ each.flip column inPlan
    obtain ⟨source, found, rfl⟩ := Fallible.of_map_ok success
    dsimp only at sameName
    rw [fetchColumn, ← sameName, found] at fetched
    exact Except.ok.inj fetched
  · have ⟨column, inPlan, success⟩ := Fallible.exists_of_forall₂ each name among
    obtain ⟨source, found, rfl⟩ := Fallible.of_map_ok success
    refine Or.inl (List.mem_map.2 ⟨(name, columnValue texts events index row source), ?_, rfl⟩)
    refine List.mem_map.2 ⟨(name, source), mem_append.2 ?_, rfl⟩
    by_cases fixed : source.isFixed = true
    · exact Or.inl (mem_filter.2 ⟨inPlan, fixed⟩)
    · exact Or.inr (mem_filter.2 ⟨inPlan, by simp [fixed]⟩)

end Agreement

/-- The file and the index show one value of a field, with four exceptions. -/
theorem columns_agree (texts : JsonTexts) (events : String → List MarkdownEvent) (unicode : Unicode)
    (index : Index) (ctx : QueryContext) (page : Page) (name : String)
    (identity : ProjectionFieldIdentity) (holds : index.Holds unicode page)
    (resolves : resolveProjectionField name = .ok identity)
    (canonical : name ≠ "sys.body" ∧ name ≠ "prop.body")
    (extra : ∀ key, identity = .property key → key ∉ systemKeys)
    (kept : ∀ key value, identity = .property key → page.frontmatter.extra.value key = some value →
      texts.Keeps (tomlValueToJson value))
    (shown : identity = .body → page.isEncrypted = false → bodyExcerpt events page.body ≠ "") :
    fetchColumn texts events index ctx (page.stored unicode) name
        = .ok ((projectPageFieldValue events page identity).2.getD .null)
      ∧ ∀ names plan, name ∈ names → planColumns ctx names = .ok plan →
        (showColumns texts events index plan (page.stored unicode)).value name
          = some ((projectPageFieldValue events page identity).2.getD .null) := by
  have fetched : fetchColumn texts events index ctx (page.stored unicode) name
      = .ok ((projectPageFieldValue events page identity).2.getD .null) := by
    by_cases isBody : name = "body"
    · have same : ProjectionFieldIdentity.body = identity := by
        subst isBody
        exact Except.ok.inj resolves
      subst same
      rw [fetchColumn, columnSource, if_pos isBody, ← bodyValue_stored holds (shown rfl)]
      rfl
    · rw [fetchColumn, columnSource_of_resolves isBody resolves]
      cases identity with
      | body =>
        have other := (body_spellings resolves).resolve_left isBody
        exact absurd other (not_or.2 canonical)
      | property key =>
        have read : propertyValue texts (page.stored unicode).metaJson key
            = (projectPageFieldValue events page (.property key)).2.getD .null :=
          propertyValue_stored (extra key rfl) fun value => kept key value rfl
        exact congrArg Except.ok read
      | system sys =>
        cases sys with
        | tags => exact congrArg Except.ok (tags_stored holds)
        | aliases => exact congrArg Except.ok aliasesValue_stored
        | id | path | title | kind | project | createdAt | updatedAt | encryption | journalDate
        | wordCount => exact congrArg Except.ok (columnValue_stored rfl)
  exact ⟨fetched, fun names plan among planned => value_of_showColumns planned among fetched⟩

/-! ### One page -/

namespace ColumnSample

def page : Page where
  path := ⟨["notes", "log.md"], by decide, by
    intro component among
    rcases mem_cons.1 among with rfl | among
    · exact ⟨by decide, by decide, by decide, by decide⟩
    · obtain rfl := mem_singleton.1 among
      exact ⟨by decide, by decide, by decide, by decide⟩⟩
  frontmatter :=
    { id := .repeated 0
      title := some "Log"
      tags := []
      aliases := []
      kind := none
      project := none
      createdAt := none
      updatedAt := none
      encryption := none
      readonly := some true
      extra := ⟨[("rating", .integer 4)], nodup_singleton _⟩ }
  body := ""
  extraOnly := by decide

def unicode : Unicode := ⟨id, String.toLower⟩

def index : Index := .ofPage unicode page

def ctx : QueryContext := ⟨none, [], .newYear⟩

def column (name : String) : Except QueryError JsonValue :=
  fetchColumn ⟨id, id⟩ (fun _ => []) index ctx (page.stored unicode) name

end ColumnSample

/-- The rating of the page is an integer. -/
theorem columns_agree_rating : ColumnSample.column "rating" = .ok (.number (.posInt 4)) :=
  (columns_agree ⟨id, id⟩ (fun _ => []) ColumnSample.unicode ColumnSample.index ColumnSample.ctx
    ColumnSample.page "rating" (.property "rating") (Index.holds_ofPage _ _) (by rfl)
    ⟨by decide, by decide⟩
    (fun key same => by
      obtain rfl := ProjectionFieldIdentity.property.inj same
      decide)
    (fun key value same found => by
      obtain rfl := ProjectionFieldIdentity.property.inj same
      obtain rfl := some.inj found
      rfl)
    nofun).1

/-- The index refuses the body under another name, and alone shows a system field taken as a
property, and a body without words. -/
theorem columns_differ : ColumnSample.index.Holds ColumnSample.unicode ColumnSample.page
      ∧ (resolveProjectionField "sys.body" = .ok .body
        ∧ ColumnSample.column "sys.body" = .error .projectionOnlyBody)
      ∧ (resolveProjectionField "prop.title" = .ok (.property "title")
        ∧ ColumnSample.column "prop.title" = .ok (.string "Log")
        ∧ projectPageFieldValue (fun _ => []) ColumnSample.page (.property "title") = (false, none))
      ∧ ColumnSample.column "body" = .ok (.string "")
      ∧ projectPageFieldValue (fun _ => []) ColumnSample.page .body = (false, none) := by
  refine ⟨Index.holds_ofPage _ _, ⟨?_, ?_⟩, ⟨?_, ?_, ?_⟩, ?_, ?_⟩
  all_goals rfl

end Clepsydra.Bases
