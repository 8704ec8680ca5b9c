import Clepsydra.Vault.Frontmatter

/-!
Owns: what a page's text is read as once the page was written.

Proves: a written page is read with its body, or not at all; the fields that are read are gone from
the extra fields, which keep their order.
-/

namespace Clepsydra.Vault

open Library Library.Fallible

/-! ### What is taken out of a table -/

def Left (table rest : TomlTable) (keys : List String) : Prop :=
  rest.rows = table.rows.filter fun row => row.1 ∉ keys

section Taken

variable {Time : Type} {calendar : Calendar Time} {table rest : TomlTable} {key : String}

theorem left_erase : Left table (table.erase key) [key] := by
  show table.rows.filter _ = _
  congr 1
  funext row
  simp

theorem left_self (absent : table.value key = none) : Left table table [key] := by
  apply Eq.symm
  apply List.filter_eq_self.2
  intro row member
  have other : row.1 ≠ key := by
    intro same
    rw [ExtraMap.value_eq_none_iff, ← same] at absent
    exact absent (List.mem_map_of_mem member)
  simpa using other

variable {ε α : Type} {taken read : α}

theorem left_of_erased (reads : (.ok (taken, table.erase key) : Except ε _) = .ok (read, rest)) :
    Left table rest [key] := by
  obtain ⟨-, rfl⟩ := Prod.mk.inj (Except.ok.inj reads)
  exact left_erase

theorem left_of_kept (absent : table.value key = none)
    (reads : (.ok (taken, table) : Except ε _) = .ok (read, rest)) : Left table rest [key] := by
  obtain ⟨-, rfl⟩ := Prod.mk.inj (Except.ok.inj reads)
  exact left_self absent

variable {keys : List String}

theorem Left.cons {next : TomlTable} (first : Left table rest keys) (second : Left rest next [key])
    : Left table next (key :: keys) := by
  unfold Left at *
  rw [second, first, List.filter_filter]
  congr 1
  funext row
  by_cases same : row.1 = key
  · simp [same]
  · simp [same]

theorem Left.without (left : Left table rest keys) :
    Without table rest keys := by
  intro other
  have found : rest.value other
      = ((table.rows.filter fun row => row.1 ∉ keys).find? fun row => row.1 = other).map
        Prod.snd := by
    rw [← left]
    rfl
  rw [found, List.find?_filter]
  by_cases taken : other ∈ keys
  · rw [if_pos taken, Option.map_eq_none_iff, List.find?_eq_none]
    intro row _ both
    have apart : row.1 ∉ keys ∧ row.1 = other := by simpa using both
    exact apart.1 (apart.2 ▸ taken)
  · rw [if_neg taken]
    show _ = Option.map Prod.snd (table.rows.find? fun row => row.1 = other)
    congr 2
    funext row
    by_cases same : row.1 = other
    · simp [same, taken]
    · simp [same]

theorem Left.apart (left : Left table rest keys) :
    ∀ key ∈ rest.keys, key ∉ keys := by
  intro key member isTaken
  have taken := left.without key
  rw [if_pos isTaken] at taken
  exact ExtraMap.value_eq_none_iff.1 taken member

theorem left_takeId {id : Option Uuid} (reads : takeId table = .ok (id, rest)) :
    Left table rest ["id"] := by
  unfold takeId at reads
  split at reads
  next absent => exact left_of_kept absent reads
  · split at reads
    · exact left_of_erased reads
    · cases reads
  · cases reads

theorem left_takeString {text : Option String} (reads : takeString table key = .ok (text, rest)) :
    Left table rest [key] := by
  unfold takeString at reads
  split at reads
  next absent => exact left_of_kept absent reads
  · exact left_of_erased reads
  · cases reads

theorem left_takeBool {flag : Option Bool} (reads : takeBool table key = .ok (flag, rest)) :
    Left table rest [key] := by
  unfold takeBool at reads
  split at reads
  next absent => exact left_of_kept absent reads
  · exact left_of_erased reads
  · cases reads

theorem left_takeStringArray {texts : List String}
    (reads : takeStringArray table key = .ok (texts, rest)) : Left table rest [key] := by
  unfold takeStringArray at reads
  split at reads
  next absent => exact left_of_kept absent reads
  · split at reads
    · exact left_of_erased reads
    · cases reads
  · cases reads

theorem left_takeTimestamp {stamp : Option Time}
    (reads : takeTimestamp calendar table key = .ok (stamp, rest)) : Left table rest [key] := by
  unfold takeTimestamp at reads
  split at reads
  next absent => exact left_of_kept absent reads
  · split at reads
    · exact left_of_erased reads
    · cases reads
  · split at reads
    · exact left_of_erased reads
    · cases reads
  · cases reads

theorem left_takeEncryption {encryption : Option EncryptionMeta}
    (reads : takeEncryption table = .ok (encryption, rest)) : Left table rest ["encryption"] := by
  unfold takeEncryption at reads
  split at reads
  next absent => exact left_of_kept absent reads
  · split at reads
    · cases reads
    · split_ifs at reads
      exact left_of_erased reads
  · cases reads

theorem takeEncryption_of_absent (absent : table.value "encryption" = none) :
    takeEncryption table = .ok (none, table) := by
  unfold takeEncryption
  rw [absent]

/-- No system field is among its extra fields, and it is encrypted only if the table says so. -/
theorem extra_of_metaFromTable {id : Option Uuid} {withId : Uuid → PageMeta Time TomlValue}
    (reads : metaFromTable calendar table = .ok (id, withId)) (made : Uuid) :
    Left table (withId made).extra systemKeys.reverse
      ∧ (table.value "encryption" = none → (withId made).encryption = none) := by
  unfold metaFromTable at reads
  have ⟨⟨_, noId⟩, isId, reads⟩ := of_bind_ok reads
  have ⟨⟨_, noTitle⟩, isTitle, reads⟩ := of_bind_ok reads
  have ⟨⟨_, noType⟩, isType, reads⟩ := of_bind_ok reads
  obtain ⟨_, -, reads⟩ := of_bind_ok reads
  have ⟨⟨_, noProject⟩, isProject, reads⟩ := of_bind_ok reads
  have ⟨⟨_, noTags⟩, isTags, reads⟩ := of_bind_ok reads
  have ⟨⟨_, noAliases⟩, isAliases, reads⟩ := of_bind_ok reads
  have ⟨⟨_, noCreated⟩, isCreated, reads⟩ := of_bind_ok reads
  have ⟨⟨_, noUpdated⟩, isUpdated, reads⟩ := of_bind_ok reads
  have ⟨⟨encryption, noEncryption⟩, isEncryption, reads⟩ := of_bind_ok reads
  have ⟨⟨_, extra⟩, isReadonly, reads⟩ := of_bind_ok reads
  obtain ⟨-, rfl⟩ := Prod.mk.inj (Except.ok.inj reads)
  have left := (((((((left_takeId isId).cons (left_takeString isTitle)).cons
    (left_takeString isType)).cons (left_takeString isProject)).cons
    (left_takeStringArray isTags)).cons (left_takeStringArray isAliases)).cons
    (left_takeTimestamp isCreated)).cons (left_takeTimestamp isUpdated)
  refine ⟨(left.cons (left_takeEncryption isEncryption)).cons (left_takeBool isReadonly), ?_⟩
  intro absent
  rw [← left.without.value_eq (by decide)] at absent
  rw [takeEncryption_of_absent absent] at isEncryption
  exact (Prod.mk.inj (Except.ok.inj isEncryption)).1.symm

end Taken

/-! ### A page that was written -/

section Written

variable {Time : Type} {calendar : Calendar Time} {crate : TomlCrate}
  {validateAgeArmor : List Char → Except String Unit}
  {legacyYaml : List Char → Except FrontmatterError (PageMeta Time TomlValue × List Char)}
  {page : PageMeta Time TomlValue} {system : TomlTable}

/-- Its text is whole lines and is read as the fields that were printed. -/
structure Legible (crate : TomlCrate) (page : PageMeta Time TomlValue) (system : TomlTable) :
    Prop where
  lines : ∃ lines, tomlText crate page system = lines ++ ['\n']
  reads : ∃ table, crate.parse (tomlText crate page system) = some table ∧
    ∀ key, Option.Rel TomlValue.Same (table.value key) (joinedValue page system key)
  cut : ∀ before after, tomlText crate page system = before ++ (fenceLine ++ after) →
    crate.parse (before ++ ['\n']) = none

variable {content : List Char}

/-- They are found around what was printed, or what stands before is not read. -/
theorem splitFenced_written (legible : Legible crate page system)
    (written : systemTable calendar page = some system) {body : List Char}
    (isContent : writePageContent calendar crate page body = some content) :
    "+++".toList.isPrefixOf content = true ∧
      (fenceLine <:+: tomlText crate page system → ∃ cut longer,
        splitFenced content "+++".toList = .ok (cut, longer) ∧ crate.parse cut = none) ∧
      (¬fenceLine <:+: tomlText crate page system →
        splitFenced content "+++".toList = .ok (tomlText crate page system, body)) := by
  obtain ⟨lines, ends⟩ := legible.lines
  rw [writePageContent, written, Option.map_some, Option.some.injEq] at isContent
  have isFenced : content = fenced lines body := by
    rw [← isContent, ends]
    rfl
  rw [isFenced, ends, fence_lines_iff]
  refine ⟨by simp [fenced], fun broken => ?_, fun unbroken => splitFenced_of_unbroken unbroken body⟩
  obtain ⟨before, middle, found⟩ :=
    splitOnce_of_occurs broken (List.cons_ne_nil _ _) (fenceLine ++ '\n' :: body)
  have isLines : lines = before ++ (fenceLine ++ middle) := by
    apply @List.append_cancel_right _ _ (fenceLine ++ '\n' :: body)
    rw [(append_of_splitOnce found).1]
    simp only [List.append_assoc]
  refine ⟨_, _, splitFenced_of_found found, legible.cut before (middle ++ ['\n']) ?_⟩
  rw [ends, isLines, List.append_assoc, List.append_assoc]

theorem parseFrontmatter_written (legible : Legible crate page system)
    (written : systemTable calendar page = some system) {body : List Char}
    (isContent : writePageContent calendar crate page body = some content) :
    parseFrontmatter calendar crate validateAgeArmor legacyYaml content
      = if fenceLine <:+: tomlText crate page system then .error .toml
        else pageFromParts calendar crate validateAgeArmor (tomlText crate page system) body := by
  obtain ⟨starts, cut, whole⟩ := splitFenced_written legible written isContent
  rw [parseFrontmatter, if_pos starts]
  by_cases broken : fenceLine <:+: tomlText crate page system
  · obtain ⟨before, longer, splits, notRead⟩ := cut broken
    have fails : parseTable crate before = .error .toml := by
      rw [parseTable, notRead]
    rw [if_pos broken, splits]
    show (parseTable crate before >>= _) = _
    rw [fails]
    rfl
  · rw [if_neg broken, whole broken]
    rfl

/-- The same body; it is encrypted only if it was before, and then armored. -/
theorem read_of_written (legible : Legible crate page system)
    (written : systemTable calendar page = some system) {body found : List Char}
    {read : PageMeta Time TomlValue}
    (isContent : writePageContent calendar crate page body = some content)
    (reads : parseFrontmatter calendar crate validateAgeArmor legacyYaml content =
      .ok (read, found)) :
    found = body ∧ (page.encryption = none → read.encryption = none) ∧
      (read.encryption ≠ none → validateAgeArmor found = .ok ()) := by
  rw [parseFrontmatter_written legible written isContent] at reads
  split_ifs at reads
  have isBody := body_of_pageFromParts reads
  obtain ⟨table, parses, values⟩ := legible.reads
  unfold pageFromParts at reads
  obtain ⟨parsed, isTable, reads⟩ := of_bind_ok reads
  rw [parseTable, parses] at isTable
  obtain rfl := Except.ok.inj isTable
  obtain ⟨⟨id, withId⟩, isMeta, reads⟩ := of_bind_ok reads
  have absent (isPlain : page.encryption = none) : table.value "encryption" = none := by
    have related := values "encryption"
    have extra : (extraTable page system).value "encryption" = none := by
      rw [ExtraMap.value_eq_none_iff]
      intro member
      obtain ⟨row, inRows, isKey⟩ := List.mem_map.1 member
      have kept := (List.mem_filter.1 inRows).2
      simp [isKey] at kept
    rw [joinedValue, if_pos rfl, systemTable_encryption written, isPlain, extra] at related
    generalize table.value "encryption" = value at related ⊢
    cases related
    rfl
  cases id with
  | none => cases reads
  | some id =>
    obtain ⟨_, isValid, reads⟩ := of_bind_ok reads
    obtain ⟨rfl, -⟩ := Prod.mk.inj (Except.ok.inj reads)
    refine ⟨isBody.symm, fun isPlain => (extra_of_metaFromTable isMeta id).2 (absent isPlain), ?_⟩
    intro isEncrypted
    rw [← isBody]
    exact (validateEncryptedBody_ok_iff.1 isValid).resolve_left isEncrypted

end Written

end Clepsydra.Vault
