import Clepsydra.Library.Fallible
import Clepsydra.Library.Substring
import Clepsydra.Vault.PageMeta

/-!
Owns: how a page is written as text with its frontmatter between `+++` fences, and read back.

Proves: exactly which pages are read back as they were written.
-/

namespace Clepsydra.Vault

open Library Library.Fallible List
open Option (some.inj some.injEq)

abbrev TomlTable := ExtraMap TomlValue

/-! ### Fences -/

inductive FrontmatterError where
  | notFound
  | toml
  | yaml
  | missingId
  | invalidField (message : String)
  | unterminated
deriving DecidableEq

/-- `split_fenced`: the text between the fences and what follows the closing one. -/
def splitFenced (content fence : List Char) : Except FrontmatterError (List Char × List Char) :=
  if fence.isPrefixOf content then
    match splitOnce ['\n'] (content.drop fence.length) with
    | none => .error .unterminated
    | some (_, rest) =>
      let body (afterClosing : List Char) : List Char :=
        if ['\n'].isPrefixOf afterClosing then afterClosing.tail else afterClosing
      match splitOnce ('\n' :: fence) rest with
      | some (before, afterClosing) => .ok (before ++ ['\n'], body afterClosing)
      | none =>
        -- an empty frontmatter is closed on its first line
        if fence.isPrefixOf rest then .ok ([], body (rest.drop fence.length))
        else .error .unterminated
  else .error .notFound

/-! ### Fields -/

/-- The conversions of `chrono` and of TOML's date-times. -/
structure Calendar (Time : Type) where
  year : Time → Int
  toRfc3339Opts : Time → List Char
  parseFromRfc3339 : String → Option Time
  parseNaiveDateTime : String → Option Time
  parseNaiveDate : String → Option Time
  parseDatetime : List Char → Option String

/-- `toml::to_string`, the text of an inline value, and the parser. -/
structure TomlCrate where
  print : TomlTable → List Char
  display : TomlValue → List Char
  parse : List Char → Option TomlTable

section Fields

variable {Time : Type} (calendar : Calendar Time)

def takeBool (table : TomlTable) (key : String) :
    Except FrontmatterError (Option Bool × TomlTable) :=
  match table.value key with
  | none => .ok (none, table)
  | some (.boolean flag) => .ok (some flag, table.erase key)
  | some _ => .error (.invalidField (key ++ " must be a boolean"))

def takeString (table : TomlTable) (key : String) :
    Except FrontmatterError (Option String × TomlTable) :=
  match table.value key with
  | none => .ok (none, table)
  | some (.string text) => .ok (some text, table.erase key)
  | some _ => .error (.invalidField (key ++ " must be a string"))

def takeStringArray (table : TomlTable) (key : String) :
    Except FrontmatterError (List String × TomlTable) :=
  match table.value key with
  | none => .ok ([], table)
  | some (.array items) =>
    match items.mapM TomlValue.asStr with
    | some texts => .ok (texts, table.erase key)
    | none => .error (.invalidField (key ++ " must be an array of strings"))
  | some _ => .error (.invalidField (key ++ " must be an array of strings"))

def tomlDatetimeToUtc (text : String) : Option Time :=
  ((calendar.parseFromRfc3339 text).or (calendar.parseNaiveDateTime text)).or
    (calendar.parseNaiveDate text)

def takeTimestamp (table : TomlTable) (key : String) :
    Except FrontmatterError (Option Time × TomlTable) :=
  match table.value key with
  | none => .ok (none, table)
  | some (.datetime text) =>
    match tomlDatetimeToUtc calendar text with
    | some instant => .ok (some instant, table.erase key)
    | none => .error (.invalidField (key ++ " is not a valid date-time"))
  | some (.string text) =>
    match calendar.parseFromRfc3339 text with
    | some instant => .ok (some instant, table.erase key)
    | none => .error (.invalidField (key ++ " is not a valid date-time"))
  | some _ => .error (.invalidField (key ++ " must be a date-time"))

def takeId (table : TomlTable) : Except FrontmatterError (Option Uuid × TomlTable) :=
  match table.value "id" with
  | none => .ok (none, table)
  | some (.string text) =>
    match Uuid.parse text with
    | some id => .ok (some id, table.erase "id")
    | none => .error (.invalidField ("id is not a valid UUID: " ++ text))
  | some _ => .error (.invalidField "id must be a string")

/-- The metadata of an encrypted body as `serde` reads it from a table. -/
def readEncryption (entries : List (String × TomlValue)) : Option (Int × String) := do
  let format ← (TomlValue.field entries "format").bind TomlValue.asStr
  let version ← TomlValue.field entries "version"
  let keyId ← (TomlValue.field entries "key_id").bind TomlValue.asStr
  match version with
  | .integer version =>
    if format = "age" ∧ 0 ≤ version ∧ version < 256 then some (version, keyId) else none
  | _ => none

def takeEncryption (table : TomlTable) :
    Except FrontmatterError (Option EncryptionMeta × TomlTable) :=
  match table.value "encryption" with
  | none => .ok (none, table)
  | some (.table entries) =>
    match readEncryption entries with
    | none =>
      .error (.invalidField "encryption must contain format, version, and key_id")
    | some (version, keyId) =>
      if version ≠ 1 then .error (.invalidField "unsupported encryption metadata version")
      else if hasKey : trim keyId ≠ "" then .ok (some ⟨keyId, hasKey⟩, table.erase "encryption")
      else .error (.invalidField "encryption key ID must not be empty")
  | some _ => .error (.invalidField "encryption must be a table or inline table")

/-- `Kind::from_token`, or an error that shows the token. -/
def readKind : Option String → Except FrontmatterError (Option Kind)
  | none => .ok none
  | some raw =>
    match Kind.fromToken raw with
    | some kind => .ok (some kind)
    | none => .error (.invalidField ("unknown kind: " ++ raw))

/-- `meta_from_table`. The identifier is `none` where the source makes a new one and says so. -/
def metaFromTable (table : TomlTable) :
    Except FrontmatterError (Option Uuid × (Uuid → PageMeta Time TomlValue)) := do
  let (id, table) ← takeId table
  let (title, table) ← takeString table "title"
  let (token, table) ← takeString table "type"
  let kind ← readKind token
  let (project, table) ← takeString table "project"
  let (tags, table) ← takeStringArray table "tags"
  let (aliases, table) ← takeStringArray table "aliases"
  let (createdAt, table) ← takeTimestamp calendar table "created_at"
  let (updatedAt, table) ← takeTimestamp calendar table "updated_at"
  let (encryption, table) ← takeEncryption table
  let (readonly, table) ← takeBool table "readonly"
  pure (id, fun id => { id, title, tags, aliases, kind, project, createdAt, updatedAt, encryption,
                        readonly, extra := table })

end Fields

/-! ### Reading and writing pages -/

section Pages

variable {Time : Type} (calendar : Calendar Time) (crate : TomlCrate)
  (validateAgeArmor : List Char → Except String Unit)
  (legacyYaml : List Char → Except FrontmatterError (PageMeta Time TomlValue × List Char))

def validateEncryptedBody (page : PageMeta Time TomlValue) (body : List Char) :
    Except FrontmatterError Unit :=
  if page.encryption.isSome then
    match validateAgeArmor body with
    | .ok _ => .ok ()
    | .error message => .error (.invalidField message)
  else .ok ()

def parseTable (toml : List Char) : Except FrontmatterError TomlTable :=
  match crate.parse toml with
  | some table => .ok table
  | none => .error .toml

def pageFromParts (toml body : List Char) :
    Except FrontmatterError (PageMeta Time TomlValue × List Char) := do
  let table ← parseTable crate toml
  let (id, withId) ← metaFromTable calendar table
  match id with
  | none => .error .missingId
  | some id => do
      validateEncryptedBody validateAgeArmor (withId id) body
      pure (withId id, body)

def parseFrontmatter (content : List Char) :
    Except FrontmatterError (PageMeta Time TomlValue × List Char) :=
  if "+++".toList.isPrefixOf content then do
    let (toml, body) ← splitFenced content "+++".toList
    pageFromParts calendar crate validateAgeArmor toml body
  else if "---".toList.isPrefixOf content then legacyYaml content
  else .error .notFound

/-- `chrono_to_toml_datetime`; where the text is no date-time of TOML the source panics. -/
def chronoToTomlDatetime (instant : Time) : Option TomlValue :=
  (calendar.parseDatetime (calendar.toRfc3339Opts instant)).map .datetime

def stampValue : Option Time → Option (Option TomlValue)
  | none => some none
  | some instant => (chronoToTomlDatetime calendar instant).map some

def textsValue (texts : List String) : Option TomlValue :=
  if texts.isEmpty then none else some (.array (texts.map .string))

def systemTable (page : PageMeta Time TomlValue) : Option TomlTable := do
  let table := ExtraMap.insert Table.empty "id" (TomlValue.string page.id.toText)
  let table := table.insertSome "title" (page.title.map .string)
  let table := table.insertSome "type" (page.kind.map fun kind => .string kind.asStr)
  let table := table.insertSome "project" (page.project.map .string)
  let table := table.insertSome "tags" (textsValue page.tags)
  let table := table.insertSome "aliases" (textsValue page.aliases)
  let createdAt ← stampValue calendar page.createdAt
  let table := table.insertSome "created_at" createdAt
  let updatedAt ← stampValue calendar page.updatedAt
  let table := table.insertSome "updated_at" updatedAt
  pure (table.insertSome "readonly" (page.readonly.map .boolean))

def encryptionValue (encryption : EncryptionMeta) : TomlValue :=
  .table [("format", .string "age"), ("version", .integer 1), ("key_id", .string encryption.keyId)]

def encryptionLine (page : PageMeta Time TomlValue) : List Char :=
  match page.encryption with
  | some encryption => "encryption = ".toList ++ crate.display (encryptionValue encryption) ++ ['\n']
  | none => []

def extraTable (page : PageMeta Time TomlValue) (system : TomlTable) : TomlTable where
  rows := page.extra.rows.filter fun row =>
    (system.value row.1).isNone && row.1 ≠ "encryption"
  distinct := page.extra.distinct.sublist (filter_sublist.map Prod.fst)

def tomlText (page : PageMeta Time TomlValue) (system : TomlTable) : List Char :=
  crate.print system ++ encryptionLine crate page ++ crate.print (extraTable page system)

/-- `write_page_content`; `none` where the source panics. -/
def writePageContent (page : PageMeta Time TomlValue) (body : List Char) : Option (List Char) :=
  (systemTable calendar page).map fun system =>
    "+++\n".toList ++ tomlText crate page system ++ "+++\n".toList ++ body

end Pages

/-! ### The fields that are written -/

def systemKeys : List String :=
  ["id", "title", "type", "project", "tags", "aliases", "created_at", "updated_at", "encryption",
    "readonly"]

structure HoldsFields {Time : Type} (calendar : Calendar Time) (page : PageMeta Time TomlValue)
    (value : String → Option TomlValue) : Prop where
  id : value "id" = some (.string page.id.toText)
  title : value "title" = page.title.map .string
  kind : value "type" = page.kind.map fun kind => .string kind.asStr
  project : value "project" = page.project.map .string
  tags : value "tags" = textsValue page.tags
  aliases : value "aliases" = textsValue page.aliases
  createdAt : stampValue calendar page.createdAt = some (value "created_at")
  updatedAt : stampValue calendar page.updatedAt = some (value "updated_at")
  readonly : value "readonly" = page.readonly.map .boolean

section Written

variable {Time : Type} {calendar : Calendar Time} {crate : TomlCrate}
  {page : PageMeta Time TomlValue} {system : TomlTable}

theorem systemTable_isSome_iff : (∃ system, systemTable calendar page = some system) ↔
      (stampValue calendar page.createdAt).isSome ∧ (stampValue calendar page.updatedAt).isSome := by
  unfold systemTable
  cases stampValue calendar page.createdAt with
  | none => simp
  | some createdAt =>
    cases stampValue calendar page.updatedAt with
    | none => simp
    | some updatedAt => simp

variable (written : systemTable calendar page = some system)

include written

theorem systemTable_fields :
    HoldsFields calendar page system.value := by
  unfold systemTable at written
  simp only [Option.bind_eq_bind, Option.bind_eq_some_iff, Option.pure_def, some.injEq] at written
  obtain ⟨createdAt, created, updatedAt, updated, rfl⟩ := written
  constructor <;> simp [ExtraMap.value_insertSome, ExtraMap.value_insert, created, updated]

theorem systemTable_other {key : String} (other : key ∉ systemKeys) : system.value key = none := by
  unfold systemTable at written
  simp only [Option.bind_eq_bind, Option.bind_eq_some_iff, Option.pure_def, some.injEq] at written
  obtain ⟨createdAt, created, updatedAt, updated, rfl⟩ := written
  simp only [systemKeys, mem_cons, not_or] at other
  simp [ExtraMap.value_insertSome, ExtraMap.value_insert, other]

theorem systemTable_encryption :
    system.value "encryption" = none := by
  unfold systemTable at written
  simp only [Option.bind_eq_bind, Option.bind_eq_some_iff, Option.pure_def, some.injEq] at written
  obtain ⟨createdAt, created, updatedAt, updated, rfl⟩ := written
  simp [ExtraMap.value_insertSome, ExtraMap.value_insert]

end Written

/-! ### Reading fields back -/

def Without (table rest : TomlTable) (keys : List String) : Prop :=
  ∀ other, rest.value other = if other ∈ keys then none else table.value other

section Taken

variable {Time : Type} {calendar : Calendar Time} {table : TomlTable} {key : String}

theorem without_erase : Without table (table.erase key) [key] := by
  intro other
  rw [table.value_erase key]
  simp only [mem_singleton]

theorem without_self (absent : table.value key = none) : Without table table [key] := by
  intro other
  by_cases same : other = key
  · rw [if_pos (mem_singleton.2 same), same, absent]
  · rw [if_neg fun member => same (mem_singleton.1 member)]

theorem Without.cons {rest next : TomlTable} {keys : List String} (first : Without table rest keys)
    (second : Without rest next [key]) : Without table next (key :: keys) := by
  intro other
  rw [second, first]
  by_cases same : other = key
  · rw [if_pos (mem_singleton.2 same), if_pos (mem_cons.2 (Or.inl same))]
  · rw [if_neg fun member => same (mem_singleton.1 member)]
    simp only [mem_cons, same, false_or]

theorem Without.value_eq {rest : TomlTable} {keys : List String} (without : Without table rest keys)
    (other : key ∉ keys) : rest.value key = table.value key := by
  rw [without, if_neg other]

theorem takeString_of_value {text : Option String} (holds : table.value key = text.map .string) :
    ∃ rest, takeString table key = .ok (text, rest) ∧ Without table rest [key] := by
  unfold takeString
  rw [holds]
  cases text with
  | none => exact ⟨table, rfl, without_self holds⟩
  | some text => exact ⟨_, rfl, without_erase⟩

theorem takeBool_of_value {flag : Option Bool} (holds : table.value key = flag.map .boolean) :
    ∃ rest, takeBool table key = .ok (flag, rest) ∧ Without table rest [key] := by
  unfold takeBool
  rw [holds]
  cases flag with
  | none => exact ⟨table, rfl, without_self holds⟩
  | some flag => exact ⟨_, rfl, without_erase⟩

theorem mapM_asStr_strings (texts : List String) :
    (texts.map TomlValue.string).mapM TomlValue.asStr = some texts := by
  induction texts with
  | nil => rfl
  | cons text rest ih =>
    rw [map_cons, mapM_cons, ih]
    rfl

theorem takeStringArray_of_value {texts : List String}
    (holds : table.value key = textsValue texts) :
    ∃ rest, takeStringArray table key = .ok (texts, rest) ∧ Without table rest [key] := by
  unfold takeStringArray
  unfold textsValue at holds
  by_cases empty : texts.isEmpty = true
  · rw [if_pos empty] at holds
    rw [holds, List.isEmpty_iff.1 empty]
    exact ⟨table, rfl, without_self holds⟩
  · rw [if_neg empty] at holds
    simp only [holds, mapM_asStr_strings]
    exact ⟨_, rfl, without_erase⟩

/-- It can be written in the years 0 to 9999, and is then read back. -/
structure Dated (calendar : Calendar Time) (instant : Time) : Prop where
  writes : (calendar.parseDatetime (calendar.toRfc3339Opts instant)).isSome ↔
    0 ≤ calendar.year instant ∧ calendar.year instant ≤ 9999
  reads : ∀ text, calendar.parseDatetime (calendar.toRfc3339Opts instant) = some text →
    calendar.parseFromRfc3339 text = some instant

theorem takeTimestamp_of_value {stamp : Option Time} (dated : ∀ instant ∈ stamp, Dated calendar instant)
    (holds : stampValue calendar stamp = some (table.value key)) :
    ∃ rest, takeTimestamp calendar table key = .ok (stamp, rest) ∧ Without table rest [key] := by
  unfold takeTimestamp
  cases stamp with
  | none =>
    have absent : table.value key = none := (some.inj holds).symm
    rw [absent]
    exact ⟨table, rfl, without_self absent⟩
  | some instant =>
    simp only [stampValue, chronoToTomlDatetime, Option.map_eq_some_iff] at holds
    obtain ⟨value, ⟨text, written, rfl⟩, found⟩ := holds
    rw [← found]
    have read := (dated instant rfl).reads text written
    simp only [tomlDatetimeToUtc, read, Option.some_or]
    exact ⟨_, rfl, without_erase⟩

theorem takeId_of_value {id : Uuid} (holds : table.value "id" = some (.string id.toText)) :
    ∃ rest, takeId table = .ok (some id, rest) ∧ Without table rest ["id"] := by
  unfold takeId
  simp only [holds, Uuid.parse_toText]
  exact ⟨_, rfl, without_erase⟩

theorem takeEncryption_of_value {encryption : Option EncryptionMeta}
    (holds : ∀ found ∈ encryption, ∃ entries, table.value "encryption" = some (.table entries) ∧
      readEncryption entries = some (1, found.keyId))
    (absent : encryption = none → table.value "encryption" = none) :
    ∃ rest, takeEncryption table = .ok (encryption, rest) ∧ Without table rest ["encryption"] := by
  unfold takeEncryption
  cases encryption with
  | none =>
    rw [absent rfl]
    exact ⟨table, rfl, without_self (absent rfl)⟩
  | some encryption =>
    have ⟨entries, found, read⟩ := holds encryption rfl
    have hasKey := encryption.hasKey
    simp only [found, read, ne_eq, not_true_eq_false, if_false, hasKey, not_false_eq_true, dite_true]
    exact ⟨_, rfl, without_erase⟩

theorem readKind_asStr (kind : Option Kind) : readKind (kind.map Kind.asStr) = .ok kind := by
  cases kind with
  | none => rfl
  | some kind => simp only [Option.map_some, readKind, fromToken_asStr]

theorem metaFromTable_of_fields {page : PageMeta Time TomlValue}
    (created : ∀ instant ∈ page.createdAt, Dated calendar instant)
    (updated : ∀ instant ∈ page.updatedAt, Dated calendar instant)
    (fields : HoldsFields calendar page table.value)
    (encrypted : ∀ found ∈ page.encryption, ∃ entries,
      table.value "encryption" = some (.table entries) ∧
      readEncryption entries = some (1, found.keyId))
    (plain : page.encryption = none → table.value "encryption" = none) :
    ∃ extra : TomlTable,
      metaFromTable calendar table = .ok (some page.id, fun id => { page with id, extra }) ∧
      ∀ key, extra.value key = if key ∈ systemKeys then none else table.value key := by
  have ⟨noId, id, taken⟩ := takeId_of_value fields.id
  have ⟨noTitle, title, without⟩ := @takeString_of_value noId "title" page.title
    (by rw [taken.value_eq (by decide)]; exact fields.title)
  replace taken := taken.cons without
  have ⟨noType, token, without⟩ := @takeString_of_value noTitle "type" (page.kind.map Kind.asStr)
    (by rw [taken.value_eq (by decide), Option.map_map]; exact fields.kind)
  replace taken := taken.cons without
  have ⟨noProject, project, without⟩ := @takeString_of_value noType "project" page.project
    (by rw [taken.value_eq (by decide)]; exact fields.project)
  replace taken := taken.cons without
  have ⟨noTags, tags, without⟩ := @takeStringArray_of_value noProject "tags" page.tags
    (by rw [taken.value_eq (by decide)]; exact fields.tags)
  replace taken := taken.cons without
  have ⟨noAliases, aliases, without⟩ := @takeStringArray_of_value noTags "aliases" page.aliases
    (by rw [taken.value_eq (by decide)]; exact fields.aliases)
  replace taken := taken.cons without
  have ⟨noCreated, createdAt, without⟩ :=
    @takeTimestamp_of_value Time calendar noAliases "created_at" page.createdAt created
      (by rw [taken.value_eq (by decide)]; exact fields.createdAt)
  replace taken := taken.cons without
  have ⟨noUpdated, updatedAt, without⟩ :=
    @takeTimestamp_of_value Time calendar noCreated "updated_at" page.updatedAt updated
      (by rw [taken.value_eq (by decide)]; exact fields.updatedAt)
  replace taken := taken.cons without
  have ⟨noEncryption, encryption, without⟩ := @takeEncryption_of_value noUpdated page.encryption
    (by rw [taken.value_eq (by decide)]; exact encrypted)
    (by rw [taken.value_eq (by decide)]; exact plain)
  replace taken := taken.cons without
  have ⟨extra, readonly, without⟩ := @takeBool_of_value noEncryption "readonly" page.readonly
    (by rw [taken.value_eq (by decide)]; exact fields.readonly)
  replace taken : Without table extra systemKeys.reverse := taken.cons without
  refine ⟨extra, ?_, fun key => ?_⟩
  · unfold metaFromTable
    rw [id]
    simp only [bind, Except.bind, title, token, readKind_asStr, project, tags, aliases, createdAt,
      updatedAt, encryption, readonly]
    rfl
  · rw [taken key]
    simp only [mem_reverse]

end Taken

/-! ### Equal values -/

inductive TomlValue.Same : TomlValue → TomlValue → Prop
  | string (text : String) : Same (.string text) (.string text)
  | integer (number : Int) : Same (.integer number) (.integer number)
  | float (bits : UInt64) : Same (.float bits) (.float bits)
  | boolean (flag : Bool) : Same (.boolean flag) (.boolean flag)
  | datetime (text : String) : Same (.datetime text) (.datetime text)
  | array {items others : List TomlValue} :
      List.Forall₂ Same items others → Same (.array items) (.array others)
  | table {entries others : List (String × TomlValue)} :
      (∀ key, Option.Rel Same (TomlValue.field entries key) (TomlValue.field others key)) →
      Same (.table entries) (.table others)

mutual

theorem TomlValue.Same.refl : ∀ value : TomlValue, TomlValue.Same value value
  | .string text => .string text
  | .integer number => .integer number
  | .float bits => .float bits
  | .boolean flag => .boolean flag
  | .datetime text => .datetime text
  | .array items => .array (sameItems items)
  | .table entries => .table (sameEntries entries)

theorem sameItems : ∀ items : List TomlValue, List.Forall₂ TomlValue.Same items items
  | [] => .nil
  | item :: rest => .cons (TomlValue.Same.refl item) (sameItems rest)

theorem sameEntries : ∀ (entries : List (String × TomlValue)) (key : String),
    Option.Rel TomlValue.Same (TomlValue.field entries key) (TomlValue.field entries key)
  | [], _ => .none
  | (other, value) :: rest, key => by
    unfold TomlValue.field
    rw [find?_cons]
    by_cases here : other = key
    · simp only [here, decide_true]
      exact .some (TomlValue.Same.refl value)
    · simp only [here, decide_false]
      exact sameEntries rest key

end
inductive TomlValue.Plain : TomlValue → Prop
  | string (text : String) : Plain (.string text)
  | boolean (flag : Bool) : Plain (.boolean flag)
  | datetime (text : String) : Plain (.datetime text)
  | strings (texts : List String) : Plain (.array (texts.map .string))

theorem strings_of_same {items : List TomlValue} {texts : List String}
    (same : List.Forall₂ TomlValue.Same items (texts.map .string)) : items = texts.map .string := by
  induction texts generalizing items with
  | nil => exact forall₂_nil_right_iff.1 same
  | cons text rest ih =>
    obtain ⟨head, tail, headSame, tailSame, rfl⟩ := forall₂_cons_right_iff.1 same
    cases headSame
    rw [ih tailSame]
    rfl

theorem TomlValue.Plain.eq_of_same {value found : TomlValue} (plain : value.Plain)
    (same : TomlValue.Same found value) : found = value := by
  cases plain with
  | string | boolean | datetime => cases same; rfl
  | strings texts =>
    cases same with
    | array each => rw [strings_of_same each]

theorem eq_of_rel_plain {found expected : Option TomlValue}
    (same : Option.Rel TomlValue.Same found expected)
    (plain : ∀ value ∈ expected, TomlValue.Plain value) : found = expected := by
  cases same with
  | some same => rw [(plain _ rfl).eq_of_same same]
  | none => rfl

theorem HoldsFields.plain {Time : Type} {calendar : Calendar Time}
    {page : PageMeta Time TomlValue} {value : String → Option TomlValue}
    (fields : HoldsFields calendar page value) {key : String} (isSystem : key ∈ systemKeys)
    (notEncryption : key ≠ "encryption") : ∀ found ∈ value key, TomlValue.Plain found := by
  have stamped : ∀ stamp : Option Time, ∀ expected,
      stampValue calendar stamp = some expected → ∀ found ∈ expected, TomlValue.Plain found := by
    intro stamp expected written found member
    cases stamp with
    | none => rw [← some.inj written] at member; exact nomatch member
    | some instant =>
      simp only [stampValue, chronoToTomlDatetime, Option.map_eq_some_iff] at written
      obtain ⟨_, ⟨text, -, rfl⟩, rfl⟩ := written
      rw [← some.inj member]
      exact .datetime text
  have texts : ∀ (texts : List String), ∀ found ∈ textsValue texts, TomlValue.Plain found := by
    intro texts found member
    unfold textsValue at member
    split at member
    · exact nomatch member
    · rw [← some.inj member]
      exact .strings texts
  have mapped : ∀ {α : Type} (field : Option α) (make : α → TomlValue),
      (∀ content, (make content).Plain) → ∀ found ∈ field.map make, TomlValue.Plain found := by
    intro α field make plain found member
    obtain ⟨content, -, rfl⟩ := Option.map_eq_some_iff.1 member
    exact plain content
  simp only [systemKeys, mem_cons, not_mem_nil, or_false] at isSystem
  rcases isSystem with rfl | rfl | rfl | rfl | rfl | rfl | rfl | rfl | rfl | rfl
  · rw [fields.id]; exact mapped (some page.id.toText) .string .string
  · rw [fields.title]; exact mapped _ _ .string
  · rw [fields.kind]; exact mapped _ _ fun kind => .string kind.asStr
  · rw [fields.project]; exact mapped _ _ .string
  · rw [fields.tags]; exact texts _
  · rw [fields.aliases]; exact texts _
  · exact stamped _ _ fields.createdAt
  · exact stamped _ _ fields.updatedAt
  · exact absurd rfl notEncryption
  · rw [fields.readonly]; exact mapped _ _ .boolean

theorem readEncryption_of_same {found : TomlValue} {encryption : EncryptionMeta}
    (same : TomlValue.Same found (encryptionValue encryption)) :
    ∃ entries, found = .table entries ∧ readEncryption entries = some (1, encryption.keyId) := by
  cases same with
  | table each =>
    rename_i entries
    refine ⟨entries, rfl, ?_⟩
    have field : ∀ key expected, TomlValue.field [("format", .string "age"),
        ("version", .integer 1), ("key_id", .string encryption.keyId)] key = some expected →
        ∃ value, TomlValue.field entries key = some value ∧ TomlValue.Same value expected := by
      intro key expected present
      have related := each key
      rw [present] at related
      generalize isField : TomlValue.field entries key = value at related
      cases related with
      | some same => exact ⟨_, rfl, same⟩
    have ⟨format, formatAt, sameFormat⟩ := field "format" (.string "age") rfl
    have ⟨version, versionAt, sameVersion⟩ := field "version" (.integer 1) rfl
    have ⟨keyId, keyAt, sameKey⟩ := field "key_id" (.string encryption.keyId) rfl
    cases sameFormat
    cases sameVersion
    cases sameKey
    simp [readEncryption, formatAt, versionAt, keyAt, TomlValue.asStr]

/-! ### Fences in the frontmatter -/

mutual

def TomlValue.texts : TomlValue → List String
  | .string text => [text]
  | .array items => itemTexts items
  | .table entries => entryTexts entries
  | _ => []

def itemTexts : List TomlValue → List String
  | [] => []
  | item :: rest => item.texts ++ itemTexts rest

def entryTexts : List (String × TomlValue) → List String
  | [] => []
  | (_, value) :: rest => value.texts ++ entryTexts rest

end

def tableTexts (table : TomlTable) : List String := table.rows.flatMap fun row => row.2.texts

def fenceLine : List Char := '\n' :: "+++".toList

/-- A text of several lines one of which begins with a fence. -/
def Breaks (text : String) : Prop := '\n' ∈ text.toList ∧ fenceLine <:+: '\n' :: text.toList

instance (text : String) : Decidable (Breaks text) :=
  inferInstanceAs (Decidable ('\n' ∈ text.toList ∧ fenceLine <:+: '\n' :: text.toList))

def pageTexts {Time : Type} (page : PageMeta Time TomlValue) : List String :=
  page.title.toList ++ page.project.toList ++ page.tags ++ page.aliases
    ++ (page.encryption.map EncryptionMeta.keyId).toList ++ tableTexts page.extra

section Fenced

variable {Time : Type} {calendar : Calendar Time} {crate : TomlCrate}
  {page : PageMeta Time TomlValue} {system : TomlTable}

theorem mem_tableTexts {table : TomlTable} {text : String} :
    text ∈ tableTexts table ↔ ∃ key, ∃ value ∈ table.value key, text ∈ value.texts := by
  rw [tableTexts, mem_flatMap]
  constructor
  · rintro ⟨row, member, inside⟩
    exact ⟨row.1, row.2, ExtraMap.value_of_row member, inside⟩
  · rintro ⟨key, value, found, inside⟩
    exact ⟨(key, value), ExtraMap.exists_row_of_value found, inside⟩

theorem itemTexts_strings (texts : List String) : itemTexts (texts.map .string) = texts := by
  induction texts with
  | nil => rfl
  | cons text rest ih =>
    rw [map_cons, itemTexts, ih]
    rfl

theorem hexChar_ne_newline : ∀ digit : Fin 16, hexChar digit ≠ '\n' := by decide

theorem not_breaks_id (id : Uuid) : ¬Breaks id.toText := by
  rintro ⟨newline, -⟩
  rw [Uuid.toText, String.toList_ofList] at newline
  have digits : '\n' ∉ id.digits.map hexChar := by
    rw [mem_map]
    rintro ⟨digit, -, same⟩
    exact hexChar_ne_newline digit same
  simp only [mem_append, mem_cons] at newline
  have dash : '\n' ≠ '-' := by decide
  have taken : ∀ start count, '\n' ∉ ((id.digits.map hexChar).drop start).take count :=
    fun start count member => digits (mem_of_mem_drop (mem_of_mem_take member))
  have dropped : ∀ start, '\n' ∉ (id.digits.map hexChar).drop start :=
    fun start member => digits (mem_of_mem_drop member)
  have first : '\n' ∉ (id.digits.map hexChar).take 8 := fun member =>
    digits (mem_of_mem_take member)
  simp only [first, taken, dropped, dash, or_self] at newline

theorem not_breaks_kind (kind : Kind) : ¬Breaks kind.asStr := by
  cases kind <;> decide

theorem texts_of_textsValue {texts : List String} {value : TomlValue}
    (found : value ∈ textsValue texts) : value.texts = texts := by
  unfold textsValue at found
  split at found
  · exact nomatch found
  · rw [← some.inj found, TomlValue.texts, itemTexts_strings]

theorem texts_of_stampValue {stamp : Option Time} {expected : Option TomlValue} {value : TomlValue}
    (written : stampValue calendar stamp = some expected) (found : value ∈ expected) :
    value.texts = [] := by
  cases stamp with
  | none => rw [← some.inj written] at found; exact nomatch found
  | some instant =>
    simp only [stampValue, chronoToTomlDatetime, Option.map_eq_some_iff] at written
    obtain ⟨_, ⟨text, -, rfl⟩, rfl⟩ := written
    rw [← some.inj found]
    rfl

theorem mem_of_breaks_system (written : systemTable calendar page = some system) {text : String}
    (member : text ∈ tableTexts system) (breaks : Breaks text) :
    text ∈ page.title.toList ++ page.project.toList ++ page.tags ++ page.aliases := by
  have fields := systemTable_fields written
  have ⟨key, value, found, inside⟩ := mem_tableTexts.1 member
  have isSystem : key ∈ systemKeys := by
    by_contra other
    rw [systemTable_other written other] at found
    exact nomatch found
  have mapped : ∀ (field : Option String), value ∈ field.map TomlValue.string →
      text ∈ field.toList := by
    intro field isValue
    obtain ⟨content, here, rfl⟩ := Option.map_eq_some_iff.1 isValue
    rw [here, mem_singleton.1 inside]
    exact mem_singleton_self _
  simp only [mem_append, or_assoc]
  simp only [systemKeys, mem_cons, not_mem_nil, or_false] at isSystem
  rcases isSystem with rfl | rfl | rfl | rfl | rfl | rfl | rfl | rfl | rfl | rfl
  · rw [fields.id] at found
    have same := mapped (some page.id.toText) found
    rw [mem_singleton.1 same] at breaks
    exact absurd breaks (not_breaks_id page.id)
  · rw [fields.title] at found
    exact Or.inl (mapped _ found)
  · rw [fields.kind] at found
    obtain ⟨kind, -, rfl⟩ := Option.map_eq_some_iff.1 found
    rw [mem_singleton.1 inside] at breaks
    exact absurd breaks (not_breaks_kind kind)
  · rw [fields.project] at found
    exact Or.inr (Or.inl (mapped _ found))
  · rw [fields.tags] at found
    rw [texts_of_textsValue found] at inside
    exact Or.inr (Or.inr (Or.inl inside))
  · rw [fields.aliases] at found
    rw [texts_of_textsValue found] at inside
    exact Or.inr (Or.inr (Or.inr inside))
  · rw [texts_of_stampValue fields.createdAt found] at inside
    exact nomatch inside
  · rw [texts_of_stampValue fields.updatedAt found] at inside
    exact nomatch inside
  · rw [systemTable_encryption written] at found
    exact nomatch found
  · rw [fields.readonly] at found
    obtain ⟨flag, -, rfl⟩ := Option.map_eq_some_iff.1 found
    exact nomatch inside

theorem mem_systemTexts (written : systemTable calendar page = some system) {text : String}
    (member : text ∈ page.title.toList ++ page.project.toList ++ page.tags ++ page.aliases) :
    text ∈ tableTexts system := by
  have fields := systemTable_fields written
  have listed : ∀ texts, text ∈ texts → textsValue texts = some (.array (texts.map .string)) := by
    intro texts inside
    cases texts with
    | nil => exact nomatch inside
    | cons first rest => rfl
  rw [mem_tableTexts]
  simp only [mem_append, or_assoc, Option.mem_toList] at member
  rcases member with title | project | tags | aliases
  · refine ⟨"title", .string text, ?_, mem_singleton_self _⟩
    rw [fields.title, title]
    rfl
  · refine ⟨"project", .string text, ?_, mem_singleton_self _⟩
    rw [fields.project, project]
    rfl
  · refine ⟨"tags", .array (page.tags.map .string), ?_, ?_⟩
    · rw [fields.tags, listed _ tags]
      rfl
    · rwa [TomlValue.texts, itemTexts_strings]
  · refine ⟨"aliases", .array (page.aliases.map .string), ?_, ?_⟩
    · rw [fields.aliases, listed _ aliases]
      rfl
    · rwa [TomlValue.texts, itemTexts_strings]

def joinedValue (page : PageMeta Time TomlValue) (system : TomlTable) (key : String) :
    Option TomlValue :=
  (system.value key).or
    ((if key = "encryption" then page.encryption.map encryptionValue else none).or
      ((extraTable page system).value key))

theorem reads_of_rows {table : TomlTable} (rows : table.rows = system.rows
      ++ ((page.encryption.map fun found => ("encryption", encryptionValue found)).toList
        ++ (extraTable page system).rows)) (key : String) :
    Option.Rel TomlValue.Same (table.value key) (joinedValue page system key) := by
  have encryption : (if key = "encryption" then page.encryption.map encryptionValue else none)
      = ((page.encryption.map fun found => ("encryption", encryptionValue found)).toList.find?
          fun row => row.1 = key).map Prod.snd := by
    cases page.encryption with
    | none => exact ite_self none
    | some found =>
      by_cases isKey : key = "encryption"
      · simp [isKey]
      · simp [isKey, Ne.symm isKey]
  have joined : joinedValue page system key = table.value key := by
    rw [joinedValue, encryption]
    show _ = Option.map Prod.snd (table.rows.find? fun row => row.1 = key)
    rw [rows, find?_append, find?_append, Option.map_or, Option.map_or]
    rfl
  rw [joined]
  cases table.value key with
  | none => exact .none
  | some value => exact .some (.refl value)

/-- Text is whole lines, a fence begins a line only inside a text, and the fields are read back. -/
structure Understood (crate : TomlCrate) (page : PageMeta Time TomlValue) (system : TomlTable) :
    Prop where
  systemLines : ∃ lines, crate.print system = lines ++ ['\n']
  extraLines : crate.print (extraTable page system) = [] ∨
    ∃ lines, crate.print (extraTable page system) = lines ++ ['\n']
  extraBegins : ¬"+++".toList <+: crate.print (extraTable page system)
  systemFence : fenceLine <:+: crate.print system ↔ ∃ text ∈ tableTexts system, Breaks text
  extraFence : fenceLine <:+: crate.print (extraTable page system) ↔
    ∃ text ∈ tableTexts (extraTable page system), Breaks text
  encryptionFence : ∀ encryption ∈ page.encryption,
    (fenceLine <:+: crate.display (encryptionValue encryption) ↔
      ∃ text ∈ (encryptionValue encryption).texts, Breaks text)
  reads : ∃ table, crate.parse (tomlText crate page system) = some table ∧
    ∀ key, Option.Rel TomlValue.Same (table.value key) (joinedValue page system key)

theorem extraTable_eq (written : systemTable calendar page = some system)
    (apart : ∀ key ∈ page.extra.keys, key ∉ systemKeys) : extraTable page system = page.extra := by
  apply Table.eq_of_rows
  apply filter_eq_self.2
  intro row member
  have other := apart row.1 (mem_map_of_mem member)
  have notEncryption : row.1 ≠ "encryption" := fun same => other (same ▸ by decide)
  rw [systemTable_other written other]
  simp [notEncryption]

theorem newline_fresh : '\n' ∉ "+++".toList := by decide

theorem fence_cons_iff {text : List Char} (begins : ¬"+++".toList <+: text) :
    fenceLine <:+: '\n' :: text ↔ fenceLine <:+: text := by
  rw [infix_cons_iff]
  apply or_iff_right
  intro starts
  exact begins (cons_prefix_cons.1 starts).2

theorem fence_line_iff (lines rest : List Char) :
    fenceLine <:+: lines ++ '\n' :: rest ↔ fenceLine <:+: lines ∨ fenceLine <:+: '\n' :: rest :=
  infix_append_separator_iff newline_fresh lines rest

theorem fence_append_iff {before : List Char} (absent : '\n' ∉ before) (after : List Char) :
    fenceLine <:+: before ++ after ↔ fenceLine <:+: after :=
  infix_append_iff_of_not_mem absent after

theorem not_fence_newline : ¬fenceLine <:+: ['\n'] := by decide

theorem fence_lines_iff (lines : List Char) : fenceLine <:+: lines ++ ['\n'] ↔ fenceLine <:+: lines := by
  rw [fence_line_iff]
  exact or_iff_left not_fence_newline

theorem breaks_encryption_iff (encryption : EncryptionMeta) :
    (∃ text ∈ (encryptionValue encryption).texts, Breaks text) ↔ Breaks encryption.keyId := by
  have age : ¬Breaks "age" := by decide
  simp [encryptionValue, TomlValue.texts, entryTexts, age]

theorem fence_tomlText_iff (written : systemTable calendar page = some system)
    (apart : ∀ key ∈ page.extra.keys, key ∉ systemKeys) (understood : Understood crate page system) :
    fenceLine <:+: tomlText crate page system ↔ ∃ text ∈ pageTexts page, Breaks text := by
  have ⟨lines, systemLines⟩ := understood.systemLines
  have extra := extraTable_eq written apart
  have systemFence : fenceLine <:+: lines ↔
      ∃ text ∈ page.title.toList ++ page.project.toList ++ page.tags ++ page.aliases,
        Breaks text := by
    rw [← fence_lines_iff, ← systemLines, understood.systemFence]
    constructor
    · exact fun ⟨text, member, breaks⟩ => ⟨text, mem_of_breaks_system written member breaks, breaks⟩
    · exact fun ⟨text, member, breaks⟩ => ⟨text, mem_systemTexts written member, breaks⟩
  have restFence : fenceLine <:+: '\n' :: (encryptionLine crate page ++
      crate.print (extraTable page system)) ↔
      (∃ text ∈ (page.encryption.map EncryptionMeta.keyId).toList, Breaks text) ∨
        ∃ text ∈ tableTexts page.extra, Breaks text := by
    rw [← extra, ← understood.extraFence]
    unfold encryptionLine
    split
    · rename_i encryption isEncrypted
      rw [fence_cons_iff (by simp), append_assoc, append_assoc,
        fence_append_iff (by decide), singleton_append, fence_line_iff,
        fence_cons_iff understood.extraBegins, understood.encryptionFence encryption isEncrypted,
        breaks_encryption_iff, isEncrypted]
      simp
    · rename_i isPlain
      rw [nil_append, fence_cons_iff understood.extraBegins, isPlain]
      simp
  unfold tomlText
  rw [append_assoc, systemLines, append_assoc, singleton_append, fence_line_iff,
    systemFence, restFence]
  simp only [pageTexts, mem_append, or_and_right, exists_or, or_assoc]

end Fenced

/-! ### Round trips -/

def fenced (text body : List Char) : List Char :=
  "+++\n".toList ++ (text ++ ['\n']) ++ "+++\n".toList ++ body

theorem splitFenced_of_found {text body before after : List Char}
    (found : splitOnce fenceLine (text ++ (fenceLine ++ '\n' :: body)) = some (before, after)) :
    splitFenced (fenced text body) "+++".toList =
      .ok (before ++ ['\n'], if ['\n'].isPrefixOf after then after.tail else after) := by
  have opened : (fenced text body).drop "+++".toList.length =
      '\n' :: (text ++ (fenceLine ++ '\n' :: body)) := by
    simp [fenced, fenceLine]
  have starts : "+++".toList.isPrefixOf (fenced text body) = true := by
    simp [fenced]
  unfold splitFenced
  rw [if_pos starts, opened, splitOnce, if_pos (by simp)]
  show (match splitOnce fenceLine (text ++ (fenceLine ++ '\n' :: body)) with
    | some (before, afterClosing) => _
    | none => _) = _
  rw [found]

theorem splitFenced_of_unbroken {text : List Char} (unbroken : ¬fenceLine <:+: text)
    (body : List Char) : splitFenced (fenced text body) "+++".toList = .ok (text ++ ['\n'], body) :=
  splitFenced_of_found (splitOnce_of_absent newline_fresh unbroken ('\n' :: body))

theorem splitFenced_of_broken {text : List Char} (broken : fenceLine <:+: text) (body : List Char) :
    ∃ before longer, splitFenced (fenced text body) "+++".toList = .ok (before, longer) ∧
      body.length < longer.length := by
  have ⟨before, middle, found⟩ :=
    splitOnce_of_occurs broken (cons_ne_nil _ _) (fenceLine ++ '\n' :: body)
  refine ⟨_, _, splitFenced_of_found found, ?_⟩
  have length : fenceLine.length = 4 := by decide
  split
  · simp [length]
    omega
  · simp [length]
    omega

section RoundTrip

variable {Time : Type} {calendar : Calendar Time} {crate : TomlCrate}
  {validateAgeArmor : List Char → Except String Unit}
  {legacyYaml : List Char → Except FrontmatterError (PageMeta Time TomlValue × List Char)}
  {page : PageMeta Time TomlValue} {system : TomlTable}

structure SamePage (found page : PageMeta Time TomlValue) : Prop where
  system : { found with extra := page.extra } = page
  extra : ∀ key, Option.Rel TomlValue.Same (found.extra.value key) (page.extra.value key)

theorem tomlText_lines (understood : Understood crate page system) :
    ∃ lines, tomlText crate page system = lines ++ ['\n'] := by
  have ⟨lines, systemLines⟩ := understood.systemLines
  unfold tomlText
  rcases understood.extraLines with empty | ⟨extraLines, ends⟩
  · rw [empty, append_nil]
    unfold encryptionLine
    split
    · exact ⟨_, (append_assoc _ _ _).symm⟩
    · exact ⟨lines, by rw [systemLines, append_nil]⟩
  · exact ⟨_, by rw [ends, ← append_assoc]⟩

theorem metaFromTable_of_joined {table : TomlTable}
    (written : systemTable calendar page = some system)
    (apart : ∀ key ∈ page.extra.keys, key ∉ systemKeys)
    (created : ∀ instant ∈ page.createdAt, Dated calendar instant)
    (updated : ∀ instant ∈ page.updatedAt, Dated calendar instant)
    (reads : ∀ key, Option.Rel TomlValue.Same (table.value key) (joinedValue page system key)) :
    ∃ extra : TomlTable,
      metaFromTable calendar table = .ok (some page.id, fun id => { page with id, extra }) ∧
      ∀ key, Option.Rel TomlValue.Same (extra.value key) (page.extra.value key) := by
  have fields := systemTable_fields written
  have extraEq := extraTable_eq written apart
  have noExtra : ∀ key ∈ systemKeys, page.extra.value key = none := fun key isSystem =>
    ExtraMap.value_eq_none_iff.2 fun member => apart key member isSystem
  have joinedSystem : ∀ key ∈ systemKeys, key ≠ "encryption" →
      joinedValue page system key = system.value key := by
    intro key isSystem notEncryption
    rw [joinedValue, if_neg notEncryption, extraEq, noExtra key isSystem, Option.none_or,
      Option.or_none]
  have sameSystem : ∀ key ∈ systemKeys, key ≠ "encryption" → table.value key = system.value key := by
    intro key isSystem notEncryption
    have related := reads key
    rw [joinedSystem key isSystem notEncryption] at related
    exact eq_of_rel_plain related (fields.plain isSystem notEncryption)
  have encryption : Option.Rel TomlValue.Same (table.value "encryption")
      (page.encryption.map encryptionValue) := by
    have related := reads "encryption"
    rwa [joinedValue, if_pos rfl, systemTable_encryption written, extraEq,
      noExtra "encryption" (by decide), Option.none_or, Option.or_none] at related
  have held : HoldsFields calendar page table.value := by
    constructor
    · rw [sameSystem _ (by decide) (by decide)]; exact fields.id
    · rw [sameSystem _ (by decide) (by decide)]; exact fields.title
    · rw [sameSystem _ (by decide) (by decide)]; exact fields.kind
    · rw [sameSystem _ (by decide) (by decide)]; exact fields.project
    · rw [sameSystem _ (by decide) (by decide)]; exact fields.tags
    · rw [sameSystem _ (by decide) (by decide)]; exact fields.aliases
    · rw [sameSystem _ (by decide) (by decide)]; exact fields.createdAt
    · rw [sameSystem _ (by decide) (by decide)]; exact fields.updatedAt
    · rw [sameSystem _ (by decide) (by decide)]; exact fields.readonly
  have ⟨extra, read, values⟩ := metaFromTable_of_fields created updated held (by
      intro found isFound
      rw [Option.mem_def.1 isFound] at encryption
      generalize table.value "encryption" = value at encryption ⊢
      cases encryption with
      | some same =>
        obtain ⟨entries, rfl, read⟩ := readEncryption_of_same same
        exact ⟨entries, rfl, read⟩)
    (by
      intro isPlain
      rw [isPlain] at encryption
      generalize table.value "encryption" = value at encryption ⊢
      cases encryption
      rfl)
  refine ⟨extra, read, fun key => ?_⟩
  rw [values key]
  by_cases isSystem : key ∈ systemKeys
  · rw [if_pos isSystem, noExtra key isSystem]
    exact .none
  · have notEncryption : key ≠ "encryption" := fun same => isSystem (same ▸ by decide)
    have related := reads key
    rw [joinedValue, if_neg notEncryption, systemTable_other written isSystem, extraEq,
      Option.none_or, Option.none_or] at related
    rw [if_neg isSystem]
    exact related

def Printable (calendar : Calendar Time) (instant : Time) : Prop :=
  0 ≤ calendar.year instant ∧ calendar.year instant ≤ 9999

theorem stampValue_isSome_iff {stamp : Option Time}
    (dated : ∀ instant ∈ stamp, Dated calendar instant) :
    (stampValue calendar stamp).isSome ↔ ∀ instant ∈ stamp, Printable calendar instant := by
  cases stamp with
  | none => simp [stampValue]
  | some instant =>
    simp only [stampValue, chronoToTomlDatetime, Option.isSome_map, (dated instant rfl).writes,
      Option.mem_some_iff, forall_eq']
    rfl

theorem validateEncryptedBody_ok_iff {body : List Char} {valid : Unit} :
    validateEncryptedBody validateAgeArmor page body = .ok valid ↔
      page.encryption = none ∨ validateAgeArmor body = .ok () := by
  unfold validateEncryptedBody
  by_cases isEncrypted : page.encryption.isSome = true
  · rw [if_pos isEncrypted, or_iff_right (Option.isSome_iff_ne_none.1 isEncrypted)]
    cases isArmor : validateAgeArmor body with
    | ok | error => simp
  · rw [if_neg isEncrypted]
    simp only [Bool.not_eq_true, Option.isSome_eq_false_iff, Option.isNone_iff_eq_none] at isEncrypted
    exact iff_of_true rfl (.inl isEncrypted)

theorem pageFromParts_of_table {toml body : List Char} {table : TomlTable} {id : Uuid}
    {withId : Uuid → PageMeta Time TomlValue} (parses : crate.parse toml = some table)
    (reads : metaFromTable calendar table = .ok (some id, withId))
    (armored : (withId id).encryption = none ∨ validateAgeArmor body = .ok ()) :
    pageFromParts calendar crate validateAgeArmor toml body = .ok (withId id, body) := by
  have parsed : parseTable crate toml = .ok table := by
    rw [parseTable, parses]
  have valid : validateEncryptedBody validateAgeArmor (withId id) body = .ok () :=
    validateEncryptedBody_ok_iff.2 armored
  rw [pageFromParts, parsed]
  show (metaFromTable calendar table >>= _) = _
  rw [reads]
  show (validateEncryptedBody validateAgeArmor (withId id) body >>= _) = _
  rw [valid]
  rfl

theorem body_of_pageFromParts {toml body split : List Char} {found : PageMeta Time TomlValue}
    (reads : pageFromParts calendar crate validateAgeArmor toml split = .ok (found, body)) :
    split = body := by
  unfold pageFromParts at reads
  obtain ⟨table, -, reads⟩ := of_bind_ok reads
  obtain ⟨⟨id, withId⟩, -, reads⟩ := of_bind_ok reads
  cases id with
  | none => exact nomatch reads
  | some id =>
    obtain ⟨_, -, reads⟩ := of_bind_ok reads
    exact congrArg Prod.snd (Except.ok.inj reads)

/-- A page is read back up to the order of extra fields exactly when its timestamps can be written
and no text of several lines has a fence line. -/
theorem page_read_back_iff (body : List Char) (apart : ∀ key ∈ page.extra.keys, key ∉ systemKeys)
    (created : ∀ instant ∈ page.createdAt, Dated calendar instant)
    (updated : ∀ instant ∈ page.updatedAt, Dated calendar instant)
    (understood : ∀ system, systemTable calendar page = some system → Understood crate page system)
    (armored : page.encryption = none ∨ validateAgeArmor body = .ok ()) :
    (∃ content found, writePageContent calendar crate page body = some content ∧
        parseFrontmatter calendar crate validateAgeArmor legacyYaml content = .ok (found, body) ∧
        SamePage found page) ↔
      (∀ instant ∈ page.createdAt, Printable calendar instant) ∧
      (∀ instant ∈ page.updatedAt, Printable calendar instant) ∧
      ∀ text ∈ pageTexts page, ¬Breaks text := by
  rw [← stampValue_isSome_iff created, ← stampValue_isSome_iff updated, ← and_assoc,
    ← systemTable_isSome_iff]
  constructor
  · rintro ⟨content, found, writes, reads, -⟩
    obtain ⟨system, written, rfl⟩ := Option.map_eq_some_iff.1 writes
    refine ⟨⟨system, written⟩, fun text member breaks => ?_⟩
    have broken := (fence_tomlText_iff written apart (understood system written)).2
      ⟨text, member, breaks⟩
    have ⟨lines, ends⟩ := tomlText_lines (understood system written)
    rw [ends, fence_lines_iff] at broken
    have ⟨before, longer, splits, long⟩ := splitFenced_of_broken broken body
    rw [ends, parseFrontmatter, if_pos (by simp)] at reads
    have ⟨parts, isParts, reads⟩ := of_bind_ok reads
    obtain rfl := Except.ok.inj (splits.symm.trans isParts)
    have same := body_of_pageFromParts reads
    rw [same] at long
    omega
  · rintro ⟨⟨system, written⟩, unbroken⟩
    have whole : ¬fenceLine <:+: tomlText crate page system := by
      rw [fence_tomlText_iff written apart (understood system written)]
      exact fun ⟨text, member, breaks⟩ => unbroken text member breaks
    have ⟨lines, ends⟩ := tomlText_lines (understood system written)
    have ⟨table, parses, reads⟩ := (understood system written).reads
    have ⟨extra, read, sameExtra⟩ := metaFromTable_of_joined written apart created updated reads
    have splits := splitFenced_of_unbroken (by rwa [ends, fence_lines_iff] at whole) body
    refine ⟨fenced lines body, { page with extra }, ?_, ?_, ⟨rfl, sameExtra⟩⟩
    · rw [writePageContent, written, Option.map_some, ends]
      rfl
    · rw [parseFrontmatter, if_pos (by simp [fenced]), splits]
      exact pageFromParts_of_table (by rw [← ends, parses]) read armored

end RoundTrip

/-! ### Three pages -/

def sampleCalendar : Calendar Int where
  year := id
  toRfc3339Opts year := (if 0 ≤ year ∧ year ≤ 9999 then (Nat.toDigits 10 (year.toNat + 10000)).tail
      else '+' :: Nat.toDigits 10 year.toNat) ++ "-01-01T00:00:00Z".toList
  parseFromRfc3339 text :=
    some ((text.toList.take 4).foldl (fun value digit => value * 10 + (digit.toNat - '0'.toNat)) 0)
  parseNaiveDateTime _ := none
  parseNaiveDate _ := none
  parseDatetime text := if text.head? = some '+' then none else some (String.ofList text)

def sampleText : TomlValue → List Char
  | .string text =>
    if '\n' ∈ text.toList then "\"\"\"\n".toList ++ text.toList ++ "\"\"\"".toList
    else '"' :: (text.toList ++ ['"'])
  | .datetime text => text.toList
  | _ => []

def samplePrint (table : TomlTable) : List Char :=
  table.rows.flatMap fun row => row.1.toList ++ " = ".toList ++ sampleText row.2 ++ ['\n']

def samplePage : PageMeta Int TomlValue where
  id := .repeated 0
  title := some "Plan"
  tags := []
  aliases := []
  kind := none
  project := none
  createdAt := some 2026
  updatedAt := none
  encryption := none
  readonly := none
  extra := ExtraMap.insert Table.empty "note" (.string "two\nlines")

def brokenPage : PageMeta Int TomlValue := { samplePage with title := some "a\n+++ b" }

def sampleTable (title : String) : TomlTable where
  rows := [("id", .string "00000000-0000-0000-0000-000000000000"), ("title", .string title),
    ("created_at", .datetime "2026-01-01T00:00:00Z"), ("note", .string "two\nlines")]
  distinct := by simp

def sampleCrate : TomlCrate where
  print := samplePrint
  display := sampleText
  parse text :=
    if text = samplePrint (sampleTable "Plan") then some (sampleTable "Plan")
    else if text = samplePrint (sampleTable "a\n+++ b") then some (sampleTable "a\n+++ b")
    else none

theorem sampleCrate_parse :
    sampleCrate.parse (samplePrint (sampleTable "Plan")) = some (sampleTable "Plan") := by
  simp [sampleCrate]

def sampleBody : List Char := "text\n+++\nmore".toList

def sampleSystem : TomlTable where
  rows := [("id", .string "00000000-0000-0000-0000-000000000000"), ("title", .string "Plan"),
    ("created_at", .datetime "2026-01-01T00:00:00Z")]
  distinct := by decide

theorem sampleSystem_written : systemTable sampleCalendar samplePage = some sampleSystem := by
  rfl

theorem sample_dated : Dated sampleCalendar 2026 := by
  refine ⟨by decide, fun text written => ?_⟩
  have expected : sampleCalendar.parseDatetime (sampleCalendar.toRfc3339Opts 2026) =
      some "2026-01-01T00:00:00Z" := by decide
  obtain rfl := some.inj (expected.symm.trans written)
  decide

/-- The body may have fences of its own, and a text of the metadata several lines. -/
theorem page_read_back_iff_plan :
    ∃ content found, writePageContent sampleCalendar sampleCrate samplePage sampleBody =
        some content ∧
      parseFrontmatter sampleCalendar sampleCrate (fun _ => .ok ()) (fun _ => .error .yaml) content =
        .ok (found, sampleBody) ∧ SamePage found samplePage := by
  have created : ∀ instant ∈ samplePage.createdAt, Dated sampleCalendar instant := by
    intro instant isCreated
    obtain rfl := some.inj isCreated
    exact sample_dated
  have understood : ∀ system, systemTable sampleCalendar samplePage = some system →
      Understood sampleCrate samplePage system := by
    intro system written
    obtain rfl := some.inj (sampleSystem_written.symm.trans written)
    have text : tomlText sampleCrate samplePage sampleSystem = samplePrint (sampleTable "Plan") := by
      decide
    exact
      { systemLines := ⟨(samplePrint sampleSystem).dropLast, by decide⟩
        extraLines := Or.inr ⟨(samplePrint samplePage.extra).dropLast, by decide⟩
        extraBegins := by decide
        systemFence := by decide +kernel
        extraFence := by decide
        encryptionFence := fun encryption found => nomatch found
        reads := ⟨sampleTable "Plan", text ▸ sampleCrate_parse, reads_of_rows rfl⟩ }
  apply (page_read_back_iff sampleBody (by decide) created (fun _ none => nomatch none)
    understood (Or.inl rfl)).2
  refine ⟨?_, fun _ none => (nomatch none), by decide⟩
  intro instant isCreated
  obtain rfl := some.inj isCreated
  exact ⟨by decide, by decide⟩

/-- A title with a fence line cuts the frontmatter short; and a page of the year 10000 cannot be
written. -/
theorem fence_in_title_breaks_page : (systemTable sampleCalendar brokenPage).map (fun system =>
        (sampleCrate.parse (tomlText sampleCrate brokenPage system)).isSome) = some true ∧
      (writePageContent sampleCalendar sampleCrate brokenPage sampleBody).map (fun content =>
        (parseFrontmatter sampleCalendar sampleCrate (fun _ => .ok ()) (fun _ => .error .yaml)
          content).map Prod.snd) = some (.error .toml) ∧
      writePageContent sampleCalendar sampleCrate { samplePage with createdAt := some 10000 }
        sampleBody = none := by
  refine ⟨?_, ?_, ?_⟩ <;> decide

end Clepsydra.Vault
