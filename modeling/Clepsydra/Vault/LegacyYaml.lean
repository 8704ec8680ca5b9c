import Clepsydra.Vault.Frontmatter

/-!
Owns: the legacy frontmatter between `---` fences: YAML values, and the two readings of a page.

Proves: of the system fields only a protection and an encryption can come in among the extra fields.
-/

namespace Clepsydra.Vault

open Library Library.Fallible List

/-! ### Values -/

/-- `serde_yaml::Value`. A number is what it is as an integer of 64 bits and as a float. -/
inductive YamlValue where
  | null
  | bool (flag : Bool)
  | number (asI64 : Option Int) (asF64 : Option UInt64)
  | string (text : String)
  | sequence (items : List YamlValue)
  | mapping (entries : List (YamlValue × YamlValue))
  | tagged (tag : String) (value : YamlValue)

/-- `insert` of a table that is a list of entries. -/
def insertEntry (entries : List (String × TomlValue)) (key : String) (value : TomlValue) :
    List (String × TomlValue) :=
  if entries.any fun entry => entry.1 = key then
    entries.map fun entry => if entry.1 = key then (key, value) else entry
  else entries ++ [(key, value)]

mutual

/-- `yaml_value_to_toml`: nulls vanish, tags are dropped, and so are keys that are no strings. -/
def yamlValueToToml : YamlValue → Option TomlValue
  | .null => none
  | .bool flag => some (.boolean flag)
  | .number (some number) _ => some (.integer number)
  | .number none asF64 => asF64.map .float
  | .string text => some (.string text)
  | .sequence items => some (.array (yamlItemsToToml items))
  | .mapping entries => some (.table (yamlEntriesToToml entries []))
  | .tagged _ value => yamlValueToToml value

def yamlItemsToToml : List YamlValue → List TomlValue
  | [] => []
  | item :: rest =>
    match yamlValueToToml item with
    | some converted => converted :: yamlItemsToToml rest
    | none => yamlItemsToToml rest

def yamlEntriesToToml : List (YamlValue × YamlValue) → List (String × TomlValue) →
    List (String × TomlValue)
  | [], table => table
  | (.string key, value) :: rest, table =>
    match yamlValueToToml value with
    | some converted => yamlEntriesToToml rest (insertEntry table key converted)
    | none => yamlEntriesToToml rest table
  | _ :: rest, table => yamlEntriesToToml rest table

end

/-- `convert_extra`. -/
def convertExtra (extra : List (String × YamlValue)) : TomlTable :=
  extra.foldl (fun map entry =>
      match yamlValueToToml entry.2 with
      | some converted => ExtraMap.insert map entry.1 converted
      | none => map)
    Table.empty

/-! ### Pages -/

def yamlKeys : List String :=
  ["id", "title", "tags", "aliases", "type", "project", "created_at", "updated_at"]

/-- `YamlPageMeta`, and `LooseYamlPageMeta` where the identifier may be absent. -/
structure YamlPageMeta (Id Time : Type) where
  id : Id
  title : Option String
  tags : List String
  aliases : List String
  kind : Option Kind
  project : Option String
  createdAt : Option Time
  updatedAt : Option Time
  extra : List (String × YamlValue)
  others : ∀ entry ∈ extra, entry.1 ∉ yamlKeys

/-- `serde_yaml::from_str` for the two models. -/
structure YamlCrate (Time : Type) where
  strict : List Char → Option (YamlPageMeta Uuid Time)
  loose : List Char → Option (YamlPageMeta (Option Uuid) Time)

section Pages

variable {Id Time : Type}

def YamlPageMeta.toPageMeta (page : YamlPageMeta Id Time) (id : Uuid) : PageMeta Time TomlValue where
  id
  title := page.title
  tags := page.tags
  aliases := page.aliases
  kind := page.kind
  project := page.project
  createdAt := page.createdAt
  updatedAt := page.updatedAt
  encryption := none
  readonly := none
  extra := convertExtra page.extra

/-- The strict reading of `legacy_yaml`. -/
def YamlCrate.parseFrontmatter (yaml : YamlCrate Time) (content : List Char) :
    Except FrontmatterError (PageMeta Time TomlValue × List Char) := do
  let (text, body) ← splitFenced content "---".toList
  match yaml.strict text with
  | some strict => .ok (strict.toPageMeta strict.id, body)
  | none => .error .yaml

end Pages

theorem YamlCrate.page_of_parseFrontmatter {Time : Type} {yaml : YamlCrate Time}
    {content body : List Char} {page : PageMeta Time TomlValue}
    (reads : yaml.parseFrontmatter content = .ok (page, body)) :
    ∃ strict : YamlPageMeta Uuid Time, page = strict.toPageMeta strict.id := by
  unfold YamlCrate.parseFrontmatter at reads
  obtain ⟨⟨text, split⟩, -, reads⟩ := of_bind_ok reads
  simp only at reads
  split at reads
  · rename_i strict _
    exact ⟨strict, (Prod.mk.inj (Except.ok.inj reads)).1.symm⟩
  · cases reads

/-! ### Extra fields -/

theorem keys_insert {extra : TomlTable} {key other : String} {value : TomlValue}
    (member : other ∈ ExtraMap.keys (extra.insert key value)) : other = key ∨ other ∈ extra.keys := by
  by_contra neither
  rw [not_or] at neither
  have absent := ExtraMap.value_eq_none_iff.2 neither.2
  have present : (ExtraMap.insert extra key value).value other = none := by
    rw [ExtraMap.value_insert, if_neg neither.1, absent]
  exact ExtraMap.value_eq_none_iff.1 present member

theorem keys_convertExtra {extra : List (String × YamlValue)} {key : String}
    (member : key ∈ (convertExtra extra).keys) : key ∈ extra.map Prod.fst := by
  have run : ∀ (entries : List (String × YamlValue)) (start : TomlTable),
      key ∈ ExtraMap.keys (entries.foldl (fun map entry =>
          match yamlValueToToml entry.2 with
          | some converted => ExtraMap.insert map entry.1 converted
          | none => map) start) →
      key ∈ start.keys ∨ key ∈ entries.map Prod.fst := by
    intro entries
    induction entries with
    | nil => exact fun start inside => .inl inside
    | cons entry rest ih =>
      intro start inside
      rw [foldl_cons] at inside
      rw [map_cons, mem_cons]
      rcases ih _ inside with inStart | inRest
      · split at inStart
        · rcases keys_insert inStart with isFirst | old
          · exact .inr (.inl isFirst)
          · exact .inl old
        · exact .inl inStart
      · exact .inr (.inr inRest)
  exact (run extra Table.empty member).resolve_left not_mem_nil

theorem keys_toPageMeta {Id Time : Type} (page : YamlPageMeta Id Time) (id : Uuid) :
    ∀ key ∈ (page.toPageMeta id).extra.keys, key ∈ systemKeys →
      key = "encryption" ∨ key = "readonly" := by
  intro key member isSystem
  have ⟨entry, inExtra, isKey⟩ := mem_map.1 (keys_convertExtra member)
  have other := page.others entry inExtra
  rw [isKey] at other
  simp only [yamlKeys, systemKeys, mem_cons, not_mem_nil, or_false, not_or] at other isSystem
  tauto

end Clepsydra.Vault
