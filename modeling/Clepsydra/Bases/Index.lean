import Clepsydra.Bases.Matching
import Clepsydra.Bases.QueryMeaning
import Clepsydra.Library.Relational
import Clepsydra.Vault.Path
import Clepsydra.Vault.TomlPatch

/-!
Owns: the rows the index keeps of a page: the row of `pages` with the frontmatter as JSON, the
editable and the computed tags, and the body; and the tables of an index with their keys.
-/

namespace Clepsydra.Bases

open Library Library.Relational Vault List

/-! ### Pages -/

def systemKeys : List String :=
  ["id", "title", "tags", "aliases", "type", "project", "created_at", "updated_at", "encryption",
    "readonly"]

/-- `Page`. -/
structure Page where
  path : VaultPath
  frontmatter : PageMeta Instant TomlValue
  body : String
  extraOnly : ∀ key ∈ systemKeys, frontmatter.extra.value key = none

namespace Page

def isEncrypted (page : Page) : Bool := page.frontmatter.encryption.isSome

def kind (page : Page) : Kind × Bool := Kind.resolve page.path.asStr page.frontmatter.kind

end Page

/-! ### Frontmatter as JSON -/

mutual

/-- `toml_value_to_json`. -/
def tomlValueToJson : TomlValue → JsonValue
  | .string text => .string text
  | .integer number =>
    .number (if 0 ≤ number then .posInt (UInt64.ofNat number.toNat)
      else .negInt (Int64.ofInt number))
  | .float bits =>
    if finite : bits.toNat / 2 ^ 52 % 2 ^ 11 ≠ 2 ^ 11 - 1 then .number (.float ⟨bits, finite⟩)
    else .null
  | .boolean flag => .bool flag
  | .datetime text => .string text
  | .array items => .array (tomlItemsToJson items)
  | .table entries => .object (tomlEntriesToJson entries)

def tomlItemsToJson : List TomlValue → List JsonValue
  | [] => []
  | item :: rest => tomlValueToJson item :: tomlItemsToJson rest

def tomlEntriesToJson : List (String × TomlValue) → List (String × JsonValue)
  | [] => []
  | (key, value) :: rest => (key, tomlValueToJson value) :: tomlEntriesToJson rest

end

def jsonStrings (texts : List String) : JsonValue := .array (texts.map .string)

/-- How a `DateTime<Utc>` is serialized: as `to_rfc3339`, with `Z` for the offset. -/
def Instant.serialize (instant : Instant) : String :=
  let second := instant.secondOfDay
  instant.date.format ++ String.ofList
    ('T' :: paddedDigits 2 (second / 3600) ++ ':' :: paddedDigits 2 (second / 60 % 60) ++
      ':' :: paddedDigits 2 (second % 60) ++ formatFraction instant.nanosecond ++ ['Z'])

def EncryptionMeta.serialize (encryption : EncryptionMeta) : JsonValue :=
  .object [("format", .string "age"), ("version", .number (.posInt 1)),
    ("key_id", .string encryption.keyId)]

def optionalEntry (key : String) (value : Option JsonValue) : List (String × JsonValue) :=
  (value.map fun value => (key, value)).toList

def systemFields (page : PageMeta Instant TomlValue) : List (String × Option JsonValue) :=
  [("id", some (.string page.id.toText)), ("title", page.title.map .string),
    ("tags", if page.tags.isEmpty then none else some (jsonStrings page.tags)),
    ("aliases", if page.aliases.isEmpty then none else some (jsonStrings page.aliases)),
    ("type", page.kind.map fun kind => .string kind.asStr),
    ("project", page.project.map .string),
    ("created_at", page.createdAt.map fun time => .string time.serialize),
    ("updated_at", page.updatedAt.map fun time => .string time.serialize),
    ("encryption", page.encryption.map EncryptionMeta.serialize),
    ("readonly", page.readonly.map .bool)]

/-- `Serialize for PageMeta`: the object whose text is stored as `meta_json`. -/
def serializePageMeta (page : PageMeta Instant TomlValue) : List (String × JsonValue) :=
  ((systemFields page).flatMap fun field => optionalEntry field.1 field.2)
    ++ page.extra.rows.map fun row => (row.1, tomlValueToJson row.2)

/-! ### Values of a row -/

/-- `is_canonical_page_filename`: a date of eight digits, a slug and a token of eight characters. -/
def isCanonicalPageFilename (name : String) : Bool :=
  match stripEnd ".md" name with
  | none => false
  | some stem =>
    let parts := stem.toList.splitOn '.'
    let date := parts.head?.getD []
    let token := parts.getLast?.getD []
    3 ≤ parts.length && (date.length == 8 && date.all Char.isDigit)
      && (token.length == 8 && token.all Char.isAlphanum)

/-- `YYYY-MM-DD`. -/
def isDateText (candidate : String) : Bool :=
  match candidate.toList with
  | [y, e, a, r, '-', m, o, '-', d, t] => [y, e, a, r, m, o, d, t].all Char.isDigit
  | _ => false

/-- `extract_journal_date`. -/
def extractJournalDate (path : String) : Option String := do
  let filename ← (stripStart "journals/" path).or (stripStart "ai-journals/" path)
  let stem := (stripEnd ".md" filename).getD filename
  let candidate ←
    if stem.utf8ByteSize = 10 then some stem
    else if isCanonicalPageFilename filename then
      ((stem.toList.splitOn '.')[1]?).map String.ofList
    else none
  if isDateText candidate then some candidate else none

/-- The words that begin in a text; `inWord` says whether one began before. -/
def countWords (inWord : Bool) : List Char → Nat
  | [] => 0
  | character :: rest =>
    if isWhitespace character then countWords false rest
    else (if inWord then 0 else 1) + countWords true rest

/-- `body.split_whitespace().count()`. -/
def wordCount (body : String) : Nat := countWords false body.toList

/-! ### Tables -/

/-- A row of `pages`. -/
structure StoredPage where
  row : PageRow
  canonicalName : String
  metaJson : List (String × JsonValue)

structure StoredTag where
  row : TagRow
  computed : Bool
  rowid : Nat

structure StoredProperty where
  row : PropertyRow
  ord : Nat

structure StoredLink where
  row : LinkRow
  spanStart : Int
  rowid : Nat

structure Index where
  pages : Library.Table String StoredPage fun page => page.row.id
  tags : Library.Table (String × String) StoredTag fun tag => (tag.row.pageId, tag.row.tag)
  names : List NameRow
  properties : Library.Table (String × String × Nat) StoredProperty fun property =>
    (property.row.pageId, property.row.key, property.ord)
  links : Library.Table Nat StoredLink fun link => link.rowid
  bodies : Library.Table String (String × String) Prod.fst
  /-- `path` is `UNIQUE`. -/
  paths_distinct : (pages.rows.map fun page => page.row.path).Nodup

namespace Index

def tables (index : Index) : Tables where
  tags := index.tags.rows.map (·.row)
  names := index.names
  properties := index.properties.rows.map (·.row)
  links := index.links.rows.map (·.row)

/-- `ORDER BY computed, rowid`. -/
def tagOrder : List (OrderTerm StoredTag Nat) :=
  [⟨fun tag => tag.computed.toNat, false⟩, ⟨fun tag => tag.rowid, false⟩]

def tagsOf (index : Index) (pageId : String) : List String :=
  (orderBy tagOrder (index.tags.rows.filter fun tag => tag.row.pageId == pageId)).map (·.row.tag)

end Index

/-! ### Writing a page -/

def keepTag (kind : Kind) (editable : List String) (tag : String) : List String :=
  if kind.isComputedTag (trim tag)
      || editable.any fun seen => eqIgnoreAsciiCase (trim seen) (trim tag) then
    editable
  else editable ++ [tag]

/-- `editable_tags`. -/
def editableTags (kind : Kind) (stored : List String) : List String :=
  stored.foldl (keepTag kind) []

theorem effectiveTags_eq (kind : Kind) (stored : List String) :
    kind.effectiveTags stored = editableTags kind stored ++ [kind.computedTag] := rfl

section Writing

variable (unicode : Unicode)

/-- The row of `pages` that `index_page` writes. -/
def Page.stored (page : Page) : StoredPage where
  row :=
    { id := page.frontmatter.id.toText
      path := page.path.asStr
      title := page.frontmatter.title
      kind := page.kind.1.asStr
      project := page.frontmatter.project
      createdAt := page.frontmatter.createdAt.map Instant.toRfc3339
      updatedAt := page.frontmatter.updatedAt.map Instant.toRfc3339
      encrypted := page.isEncrypted
      journalDate := extractJournalDate page.path.asStr
      wordCount := if page.isEncrypted then none else some (wordCount page.body) }
  canonicalName :=
    match page.frontmatter.title with
    | some title => canonicalName unicode title
    | none => canonicalName unicode (page.path.components.getLastD "")
  metaJson := serializePageMeta page.frontmatter

def Page.indexedBody (page : Page) : String := if page.isEncrypted then "" else page.body

end Writing

/-- One `INSERT` for each tag, with the next number as its `rowid`. -/
def insertTags (pageId : String) (next : Nat) : List (String × Bool) → List StoredTag
  | [] => []
  | (tag, computed) :: rest =>
    ⟨⟨pageId, tag⟩, computed, next⟩ :: insertTags pageId (next + 1) rest

/-- The rows `TagDeriver` inserts: the editable tags, then the one of the kind. -/
def Page.deriveTags (page : Page) (next : Nat) : List StoredTag :=
  insertTags page.frontmatter.id.toText next
    ((editableTags page.kind.1 page.frontmatter.tags).map (fun tag => (tag, false))
      ++ [(page.kind.1.computedTag, true)])

structure Index.Holds (unicode : Unicode) (index : Index) (page : Page) : Prop where
  stored : page.stored unicode ∈ index.pages.rows
  tags : ∃ next,
    (index.tags.rows.filter fun tag => tag.row.pageId == page.frontmatter.id.toText).Perm
      (page.deriveTags next)
  body : (page.frontmatter.id.toText, page.indexedBody) ∈ index.bodies.rows

/-! ### Reading the tags back -/

variable {pageId : String} {tags : List (String × Bool)} {next : Nat}

theorem le_rowid_of_insertTags : ∀ tag ∈ insertTags pageId next tags, next ≤ tag.rowid := by
  induction tags generalizing next with
  | nil => exact nofun
  | cons first rest ih =>
    intro tag among
    rcases mem_cons.1 among with rfl | later
    · exact le_rfl
    · have above := ih tag later
      omega

theorem mem_of_insertTags {tag : StoredTag} (among : tag ∈ insertTags pageId next tags) :
    (tag.row.tag, tag.computed) ∈ tags := by
  induction tags generalizing next with
  | nil => exact nomatch among
  | cons first rest ih =>
    rcases mem_cons.1 among with rfl | later
    · exact mem_cons_self
    · exact mem_cons_of_mem _ (ih later)

theorem nodup_rowid_insertTags (pageId : String) (tags : List (String × Bool)) (next : Nat) :
    ((insertTags pageId next tags).map (·.rowid)).Nodup := by
  induction tags generalizing next with
  | nil => exact nodup_nil
  | cons first rest ih =>
    refine nodup_cons.2 ⟨fun again => ?_, ih (next + 1)⟩
    have ⟨tag, later, same⟩ := mem_map.1 again
    have above := le_rowid_of_insertTags tag later
    dsimp only at same
    omega

theorem map_tag_insertTags (pageId : String) (tags : List (String × Bool)) (next : Nat) :
    (insertTags pageId next tags).map (·.row.tag) = tags.map Prod.fst := by
  induction tags generalizing next with
  | nil => rfl
  | cons first rest ih =>
    exact congrArg (first.1 :: ·) (ih (next + 1))

theorem precedes_tagOrder {first second : StoredTag}
    (editableFirst : first.computed ≤ second.computed) (before : first.rowid < second.rowid) :
    precedes Index.tagOrder first second = true := by
  have byRowid : precedes [⟨fun tag : StoredTag => tag.rowid, false⟩] first second = true :=
    precedes_cons_of_lt [] rfl before
  by_cases sameKind : first.computed = second.computed
  · exact (precedes_cons_of_eq _ (congrArg Bool.toNat sameKind)).trans byRowid
  · have different : first.computed.toNat ≠ second.computed.toNat :=
      fun same => sameKind (Function.LeftInverse.injective Bool.ofNat_toNat same)
    exact precedes_cons_of_lt _ rfl (lt_of_le_of_ne (Bool.toNat_le_toNat editableFirst) different)

theorem pairwise_insertTags (computedLast : tags.Pairwise fun first second => first.2 ≤ second.2) :
    (insertTags pageId next tags).Pairwise fun first second =>
      precedes Index.tagOrder first second = true := by
  induction tags generalizing next with
  | nil => exact List.Pairwise.nil
  | cons first rest ih =>
    rw [pairwise_cons] at computedLast
    refine pairwise_cons.2 ⟨fun tag later => ?_, ih computedLast.2⟩
    have above := le_rowid_of_insertTags tag later
    exact precedes_tagOrder (computedLast.1 _ (mem_of_insertTags later)) above

theorem Index.Holds.tagsOf {unicode : Unicode} {index : Index} {page : Page}
    (holds : index.Holds unicode page) :
    index.tagsOf page.frontmatter.id.toText = page.kind.1.effectiveTags page.frontmatter.tags := by
  have ⟨next, same⟩ := holds.tags
  have distinguished : ∀ first ∈ page.deriveTags next, ∀ second ∈ page.deriveTags next,
      precedes Index.tagOrder first second = true → precedes Index.tagOrder second first = true →
      first = second := by
    intro first among second alsoAmong before after
    apply inj_on_of_nodup_map (nodup_rowid_insertTags _ _ next) among alsoAmong
    exact value_eq_of_precedes before after _ (mem_cons_of_mem _ mem_cons_self)
  have ordered : (page.deriveTags next).Pairwise fun first second =>
      precedes Index.tagOrder first second = true := by
    apply pairwise_insertTags
    refine pairwise_append.2 ⟨?_, pairwise_singleton _ _, ?_⟩
    · exact pairwise_map.2 (pairwise_of_forall fun _ _ => le_rfl)
    · intro first _ second last
      rw [mem_singleton.1 last]
      exact Bool.le_true _
  unfold Index.tagsOf
  rw [← orderBy_eq_of_perm same.symm distinguished, orderBy_of_pairwise ordered, Page.deriveTags,
    map_tag_insertTags, effectiveTags_eq, map_append, map_map]
  simp only [Function.comp_def, map_id', map_cons, map_nil]

/-! ### An index of one page -/

def AreEditable (kind : Kind) (tags : List String) : Prop :=
  tags.Nodup ∧ ∀ tag ∈ tags, kind.isComputedTag (trim tag) = false

theorem areEditable_keepTag {kind : Kind} {editable : List String}
    (areEditable : AreEditable kind editable) (tag : String) :
    AreEditable kind (keepTag kind editable tag) := by
  unfold keepTag
  by_cases skipped : (kind.isComputedTag (trim tag)
      || editable.any fun seen => eqIgnoreAsciiCase (trim seen) (trim tag)) = true
  · rwa [if_pos skipped]
  · rw [if_neg skipped]
    have fresh := Bool.or_eq_false_iff.1 (Bool.eq_false_of_not_eq_true skipped)
    have absent : tag ∉ editable := fun among =>
      any_eq_false.1 fresh.2 tag among (beq_self_eq_true _)
    refine ⟨areEditable.1.append (nodup_singleton _) (by simpa using absent), ?_⟩
    intro other among
    rcases mem_append.1 among with before | last
    · exact areEditable.2 other before
    · rw [mem_singleton.1 last]
      exact fresh.1

theorem areEditable_editableTags (kind : Kind) (stored : List String) :
    AreEditable kind (editableTags kind stored) := by
  suffices kept : ∀ editable, AreEditable kind editable →
      AreEditable kind (stored.foldl (keepTag kind) editable) from kept [] ⟨nodup_nil, nofun⟩
  induction stored with
  | nil => exact fun _ areEditable => areEditable
  | cons first rest ih =>
    intro editable areEditable
    rw [foldl_cons]
    exact ih (keepTag kind editable first) (areEditable_keepTag areEditable first)

theorem isComputedTag_computedTag (kind : Kind) :
    kind.isComputedTag (trim kind.computedTag) = true := by
  cases kind <;> decide +kernel

theorem map_key_insertTags (pageId : String) (tags : List (String × Bool)) (next : Nat) :
    (insertTags pageId next tags).map (fun tag => (tag.row.pageId, tag.row.tag))
      = tags.map fun tag => (pageId, tag.1) := by
  induction tags generalizing next with
  | nil => rfl
  | cons first rest ih =>
    exact congrArg ((pageId, first.1) :: ·) (ih (next + 1))

theorem Page.nodup_deriveTags (page : Page) (next : Nat) :
    ((page.deriveTags next).map fun tag => (tag.row.pageId, tag.row.tag)).Nodup := by
  have ⟨distinct, editableOnly⟩ := areEditable_editableTags page.kind.1 page.frontmatter.tags
  unfold Page.deriveTags
  rw [map_key_insertTags]
  have tags : ((editableTags page.kind.1 page.frontmatter.tags)
      ++ [page.kind.1.computedTag]).Nodup := by
    refine distinct.append (nodup_singleton _) ?_
    rw [disjoint_singleton]
    intro among
    exact Bool.false_ne_true ((editableOnly _ among).symm.trans (isComputedTag_computedTag _))
  have keys := tags.map (Prod.mk_right_injective page.frontmatter.id.toText)
  simpa [Function.comp_def] using keys

def Index.ofPage (unicode : Unicode) (page : Page) : Index where
  pages := ⟨[page.stored unicode], nodup_singleton _⟩
  tags := ⟨page.deriveTags 1, page.nodup_deriveTags 1⟩
  names := []
  properties := .empty
  links := .empty
  bodies := ⟨[(page.frontmatter.id.toText, page.indexedBody)], nodup_singleton _⟩
  paths_distinct := nodup_singleton _

theorem pageId_of_insertTags : ∀ tag ∈ insertTags pageId next tags, tag.row.pageId = pageId := by
  induction tags generalizing next with
  | nil => exact nofun
  | cons first rest ih =>
    intro tag among
    rcases mem_cons.1 among with rfl | later
    · rfl
    · exact ih tag later

theorem Index.holds_ofPage (unicode : Unicode) (page : Page) :
    (Index.ofPage unicode page).Holds unicode page where
  stored := mem_singleton_self _
  tags := by
    refine ⟨1, List.Perm.of_eq (filter_eq_self.2 fun tag among => ?_)⟩
    exact beq_iff_eq.2 (pageId_of_insertTags tag among)
  body := mem_singleton_self _

end Clepsydra.Bases
