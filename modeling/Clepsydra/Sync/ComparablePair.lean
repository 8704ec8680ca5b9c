import Clepsydra.Library.Utf8
import Clepsydra.Sync.ConflictCopy
import Clepsydra.Vault.LegacyYaml
import Clepsydra.Vault.Written

/-!
Owns: what the copy of a page is written with, and how the copy is made comparable to the page.

Proves: exactly which pages compare equal to a copy that nobody has edited.
-/

namespace Clepsydra.Sync.Comparable

open Library Library.Fallible Library.Utf8 List Option
open Vault hiding PageMeta

/-! ### Copies -/

section Copies

variable {Time : Type} (calendar : Calendar Time) (crate : TomlCrate)
  (validateAgeArmor : List Char → Except String Unit) (yaml : YamlCrate Time)

def conflictSuffix (short : String) : String := " (conflict " ++ short ++ ")"

/-- The metadata of a copy. `conflict_of` leads the extra fields. -/
def copyMeta (newId : Uuid) (originalRel short : String) (page : Vault.PageMeta Time TomlValue) :
    Vault.PageMeta Time TomlValue :=
  { page with
    id := newId
    title := some (page.title.getD (fileStem originalRel) ++ conflictSuffix short)
    extra := page.extra.rows.foldl (fun extra row =>
        if row.1 = "conflict_of" then extra else ExtraMap.insert extra row.1 row.2)
      (ExtraMap.insert Table.empty "conflict_of" (.string originalRel)) }

/-- `conflict_copy_content`; `none` where writing the page panics. -/
def conflictCopyContent (newId : Uuid) (originalRel : String) (theirs : Bytes) (short : String) :
    Option Bytes :=
  if (stripEnd ".md" originalRel).isNone then some theirs
  else
    match fromUtf8 theirs with
    | none => some theirs
    | some text =>
      match Vault.parseFrontmatter calendar crate validateAgeArmor yaml.parseFrontmatter text with
      | .error _ => some theirs
      | .ok (page, body) =>
        (writePageContent calendar crate (copyMeta newId originalRel short page) body).map asBytes

end Copies

/-! ### Comparison -/

/-- `str::rsplit_once` at a text. -/
def rsplitOnceAt (pattern text : List Char) : Option (List Char × List Char) :=
  (splitOnce pattern.reverse text.reverse).map fun parts => (parts.2.reverse, parts.1.reverse)

/-- `strip_conflict_suffix`. -/
def stripConflictSuffix (title : String) : String :=
  match stripEnd ")" title with
  | none => title
  | some rest =>
    match rsplitOnceAt " (conflict ".toList rest.toList with
    | none => title
    | some (base, short) =>
      if byteLen short = 7 ∧ short.all isLowerHex then String.ofList base else title

section Comparison

variable {Time : Type} (calendar : Calendar Time) (crate : TomlCrate)
  (validateAgeArmor : List Char → Except String Unit) (yaml : YamlCrate Time)

def uncopied (own other : Vault.PageMeta Time TomlValue) : Vault.PageMeta Time TomlValue :=
  let originalRel := (other.extra.value "conflict_of").bind TomlValue.asStr
  let title := other.title.map stripConflictSuffix
  { other with
    updatedAt := none
    id := own.id
    extra := other.extra.erase "conflict_of"
    title :=
      match own.title, title, originalRel with
      | none, some title, some rel => if title = fileStem rel then none else some title
      | _, _, _ => title }

/-- `comparable_pair`; `none` where writing a page panics. -/
def comparablePair (original copy : List Char) :
    Except FrontmatterError (Option (List Char × List Char)) := do
  let (own, ownBody) ←
    Vault.parseFrontmatter calendar crate validateAgeArmor yaml.parseFrontmatter original
  let (other, otherBody) ←
    Vault.parseFrontmatter calendar crate validateAgeArmor yaml.parseFrontmatter copy
  pure do
    let ownText ← writePageContent calendar crate { own with updatedAt := none } ownBody
    let otherText ← writePageContent calendar crate (uncopied own other) otherBody
    pure (ownText, otherText)

end Comparison

/-! ### Titles -/

theorem splitOnce_of_first {α : Type} [DecidableEq α] {first : α} {tail before : List α}
    (absent : first ∉ before) (after : List α) :
    splitOnce (first :: tail) (before ++ (first :: tail ++ after)) = some (before, after) := by
  induction before with
  | nil =>
    have here : (first :: tail).isPrefixOf (first :: (tail ++ after)) = true := by
      rw [List.isPrefixOf_iff_prefix]
      exact ⟨after, rfl⟩
    rw [nil_append, cons_append, splitOnce, if_pos here]
    simp
  | cons other rest ih =>
    rw [mem_cons, not_or] at absent
    have notHere : ¬(first :: tail).isPrefixOf (other :: (rest ++ (first :: tail ++ after))) = true := by
      rw [List.isPrefixOf_iff_prefix]
      intro begins
      exact absent.1 (cons_prefix_cons.1 begins).1
    rw [cons_append, splitOnce, if_neg notHere, ih absent.2]
    rfl

theorem stripEnd_append (text ending : String) : stripEnd ending (text ++ ending) = some text := by
  unfold stripEnd
  rw [if_pos]
  · congr 1
    apply String.ext
    simp
  · rw [isSuffixOf_iff_suffix, String.toList_append]
    exact suffix_append _ _

theorem byteLen_of_hex {short : List Char} (hex : ∀ character ∈ short, isLowerHex character = true) :
    byteLen short = short.length := by
  induction short with
  | nil => rfl
  | cons character rest ih =>
    have single : character.utf8Size = 1 := by
      have isHex := hex character mem_cons_self
      simp only [isLowerHex, Bool.or_eq_true, Bool.and_eq_true, decide_eq_true_eq] at isHex
      rw [Char.utf8Size_eq_one_iff]
      rcases isHex with ⟨-, upTo⟩ | ⟨-, upTo⟩
      · exact UInt32.le_trans upTo (by decide)
      · exact UInt32.le_trans upTo (by decide)
    rw [byteLen_cons, single, length_cons,
      ih fun other member => hex other (mem_cons_of_mem _ member)]
    omega

theorem stripConflictSuffix_append (title : String) {short : String}
    (sevenHex : SevenHex short.toList) :
    stripConflictSuffix (title ++ conflictSuffix short) = title := by
  have ends : title ++ conflictSuffix short = title ++ " (conflict " ++ short ++ ")" := by
    apply String.ext
    simp [conflictSuffix]
  unfold stripConflictSuffix
  rw [ends, stripEnd_append]
  have cut : rsplitOnceAt " (conflict ".toList (title ++ " (conflict " ++ short).toList =
      some (title.toList, short.toList) := by
    have reversed : (title ++ " (conflict " ++ short).toList.reverse
        = short.toList.reverse ++ (' ' :: "tcilfnoc( ".toList ++ title.toList.reverse) := by
      simp
    have pattern : " (conflict ".toList.reverse = ' ' :: "tcilfnoc( ".toList := by decide
    have absent : ' ' ∉ short.toList.reverse := by
      rw [mem_reverse]
      exact sevenHex.not_mem (by decide)
    rw [rsplitOnceAt, reversed, pattern, splitOnce_of_first absent]
    simp
  simp only [cut, byteLen_of_hex sevenHex.2, sevenHex.1, List.all_eq_true.2 sevenHex.2, and_self,
    if_true, String.ofList_toList]

/-! ### Extra fields -/

theorem rows_insert_of_absent {extra : TomlTable} {key : String} (absent : key ∉ extra.keys)
    (value : TomlValue) : (ExtraMap.insert extra key value).rows = extra.rows ++ [(key, value)] := by
  have unmodified : (extra.rows.map fun row => if row.1 = key then (row.1, value) else row)
      = extra.rows := by
    have kept : ∀ row ∈ extra.rows, (if row.1 = key then (row.1, value) else row) = id row := by
      intro row member
      have other : row.1 ≠ key := fun same => absent (same ▸ List.mem_map_of_mem member)
      rw [if_neg other]
      rfl
    rw [map_congr_left kept, List.map_id]
  have isModified : (extra.modify key (fun row => (row.1, value)) fun _ => rfl) = extra :=
    Table.eq_of_rows unmodified
  have isNew : key ∉ List.map Prod.fst extra.rows := absent
  unfold ExtraMap.insert Table.insertOrIgnore
  rw [isModified]
  exact congrArg Table.rows (dif_pos isNew)

theorem rows_foldl_insert {rows : List (String × TomlValue)} {start : TomlTable}
    (distinct : (rows.map Prod.fst).Nodup) (apart : ∀ row ∈ rows, row.1 = "conflict_of" ∨
      row.1 ∉ start.keys) :
    (rows.foldl (fun extra row =>
        if row.1 = "conflict_of" then extra else ExtraMap.insert extra row.1 row.2) start).rows
      = start.rows ++ rows.filter fun row => row.1 ≠ "conflict_of" := by
  induction rows generalizing start with
  | nil => rw [foldl_nil, filter_nil, append_nil]
  | cons row rest ih =>
    rw [map_cons, nodup_cons] at distinct
    rw [foldl_cons]
    by_cases copied : row.1 = "conflict_of"
    · rw [if_pos copied, ih distinct.2 fun other member => apart other (mem_cons_of_mem _ member),
        filter_cons_of_neg (by simpa using copied)]
    · have absent := (apart row mem_cons_self).resolve_left copied
      have inserted := rows_insert_of_absent absent row.2
      rw [if_neg copied, ih distinct.2, inserted,
        filter_cons_of_pos (by simpa using copied), append_assoc]
      · rfl
      · intro other member
        rcases apart other (mem_cons_of_mem _ member) with isCopied | notIn
        · exact .inl isCopied
        · right
          show other.1 ∉ List.map Prod.fst _
          rw [inserted, map_append, mem_append, not_or]
          refine ⟨notIn, ?_⟩
          intro same
          rw [map_singleton, mem_singleton] at same
          exact distinct.1 (same ▸ List.mem_map_of_mem member)

section Copied

variable {Time : Type} {page : Vault.PageMeta Time TomlValue} {newId : Uuid} {rel short : String}

theorem rows_copyMeta : (copyMeta newId rel short page).extra.rows
      = ("conflict_of", .string rel) :: page.extra.rows.filter fun row => row.1 ≠ "conflict_of" := by
  have apart : ∀ row ∈ page.extra.rows, row.1 = "conflict_of" ∨
      row.1 ∉ ExtraMap.keys (ExtraMap.insert Table.empty "conflict_of" (TomlValue.string rel)) := by
    intro row member
    by_cases copied : row.1 = "conflict_of"
    · exact .inl copied
    · right
      show row.1 ∉ ["conflict_of"]
      simpa using copied
  exact rows_foldl_insert page.extra.distinct apart

variable {key : String}

theorem keys_copyMeta (member : key ∈ (copyMeta newId rel short page).extra.keys) :
    key = "conflict_of" ∨ key ∈ page.extra.keys := by
  unfold ExtraMap.keys at member
  rw [rows_copyMeta, map_cons, mem_cons] at member
  apply member.imp_right
  intro inRest
  have ⟨row, kept, isKey⟩ := List.mem_map.1 inRest
  exact isKey ▸ List.mem_map_of_mem (mem_filter.1 kept).1

theorem value_copyMeta :
    (copyMeta newId rel short page).extra.value "conflict_of" = some (.string rel) := by
  have member : ("conflict_of", TomlValue.string rel) ∈ (copyMeta newId rel short page).extra.rows := by
    rw [rows_copyMeta]
    exact mem_cons_self
  exact ExtraMap.value_of_row member

theorem erase_copyMeta :
    (copyMeta newId rel short page).extra.erase "conflict_of" = page.extra.erase "conflict_of" := by
  apply Table.eq_of_rows
  show (copyMeta newId rel short page).extra.rows.filter _ = page.extra.rows.filter _
  rw [rows_copyMeta, filter_cons_of_neg (by simp), List.filter_filter]
  congr 1
  funext row
  simp

theorem keys_erase {extra : TomlTable} {other : String}
    (member : other ∈ ExtraMap.keys (extra.erase key)) : other ∈ extra.keys := by
  have ⟨row, kept, isKey⟩ := List.mem_map.1 member
  exact isKey ▸ List.mem_map_of_mem (mem_filter.1 kept).1

theorem not_mem_keys_erase {extra : TomlTable} :
    key ∉ ExtraMap.keys (extra.erase key) := by
  intro member
  have ⟨row, kept, isKey⟩ := List.mem_map.1 member
  exact (of_decide_eq_true (mem_filter.1 kept).2) isKey

theorem erase_of_absent (absent : page.extra.value key = none) :
    page.extra.erase key = page.extra := by
  apply Table.eq_of_rows
  apply filter_eq_self.2
  intro row member
  have other : row.1 ≠ key := by
    intro same
    rw [ExtraMap.value_eq_none_iff, ← same] at absent
    exact absent (List.mem_map_of_mem member)
  simpa using other

/-! ### Texts -/

theorem breaks_append {text : String} (short : String) (whole : '\n' ∉ short.toList) :
    Breaks (text ++ conflictSuffix short) ↔ Breaks text := by
  let rest := "(conflict ".toList ++ short.toList ++ [')']
  have isText : (text ++ conflictSuffix short).toList = text.toList ++ ' ' :: rest := by
    simp [rest, conflictSuffix]
  have noBreak : '\n' ∉ ' ' :: rest := by
    simp [rest, whole]
  have noFence : ¬fenceLine <:+: rest := by
    intro inside
    exact noBreak (mem_cons_of_mem _ (inside.subset mem_cons_self))
  have noSpace : ' ' ∉ fenceLine := by decide
  have isLine : '\n' :: (text.toList ++ ' ' :: rest) = ('\n' :: text.toList) ++ ' ' :: rest := rfl
  unfold Breaks
  rw [isText, mem_append, or_iff_left noBreak, isLine, infix_append_cons_iff noSpace,
    or_iff_left noFence]

theorem pageTexts_copyMeta (whole : '\n' ∉ short.toList)
    (original : page.extra.value "conflict_of" = none) :
    (∀ text ∈ pageTexts (copyMeta newId rel short page), ¬Breaks text) ↔
      ∀ text ∈ page.title.getD (fileStem rel) :: rel :: pageTexts page, ¬Breaks text := by
  have others : page.extra.rows.filter (fun row => row.1 ≠ "conflict_of") = page.extra.rows :=
    congrArg Table.rows (erase_of_absent original)
  have extra : tableTexts (copyMeta newId rel short page).extra = rel :: tableTexts page.extra := by
    rw [tableTexts, rows_copyMeta, others]
    rfl
  have texts : pageTexts (copyMeta newId rel short page)
      = (page.title.getD (fileStem rel) ++ conflictSuffix short) :: (page.project.toList ++ page.tags
        ++ page.aliases ++ (page.encryption.map EncryptionMeta.keyId).toList
        ++ rel :: tableTexts page.extra) := by
    rw [pageTexts, extra]
    rfl
  have title : (∀ text ∈ page.title.toList, ¬Breaks text) ∨ ∃ text, page.title = some text := by
    cases page.title with
    | none => simp
    | some text => exact .inr ⟨text, rfl⟩
  rw [texts]
  simp only [pageTexts, forall_mem_cons, forall_mem_append, breaks_append short whole, and_assoc]
  constructor
  · rintro ⟨first, project, tags, aliases, encryption, path, extra⟩
    refine ⟨first, path, ?_, project, tags, aliases, encryption, extra⟩
    rcases title with absent | ⟨text, isTitle⟩
    · exact absent
    · rw [isTitle] at first ⊢
      exact forall_mem_singleton.2 first
  · rintro ⟨first, path, _, project, tags, aliases, encryption, extra⟩
    exact ⟨first, project, tags, aliases, encryption, path, extra⟩

end Copied

/-! ### A copy that is read again -/

section Read

variable {Time : Type} {calendar : Calendar Time} {crate : TomlCrate}
  {validateAgeArmor : List Char → Except String Unit} {yaml : YamlCrate Time}
  {page : Vault.PageMeta Time TomlValue} {body : List Char} {newId : Uuid} {rel short : String}

/-- A page that is read is armored if encrypted; only a legacy page has system fields among the
extra. -/
theorem found_of_reads {text : List Char}
    (reads : Vault.parseFrontmatter calendar crate validateAgeArmor yaml.parseFrontmatter text =
      .ok (page, body)) :
    (page.encryption = none ∨ validateAgeArmor body = .ok ()) ∧
      (∀ key ∈ page.extra.keys, key ∈ systemKeys → key = "encryption" ∨ key = "readonly") ∧
      ("+++".toList.isPrefixOf text = true → ∀ key ∈ page.extra.keys, key ∉ systemKeys) := by
  unfold Vault.parseFrontmatter at reads
  by_cases isToml : "+++".toList.isPrefixOf text = true
  · rw [if_pos isToml] at reads
    obtain ⟨⟨toml, split⟩, -, reads⟩ := of_bind_ok reads
    unfold pageFromParts at reads
    obtain ⟨table, -, reads⟩ := of_bind_ok reads
    have ⟨⟨id, withId⟩, isMeta, reads⟩ := of_bind_ok reads
    cases id with
    | none => cases reads
    | some id =>
      have ⟨_, isValid, reads⟩ := of_bind_ok reads
      obtain ⟨rfl, rfl⟩ := Prod.mk.inj (Except.ok.inj reads)
      have left := (extra_of_metaFromTable isMeta id).1
      have apart : ∀ key ∈ (withId id).extra.keys, key ∉ systemKeys :=
        fun key member isSystem => left.apart key member (mem_reverse.2 isSystem)
      exact ⟨validateEncryptedBody_ok_iff.1 isValid,
        fun key member isSystem => absurd isSystem (apart key member), fun _ => apart⟩
  · rw [if_neg isToml] at reads
    split at reads
    · obtain ⟨strict, rfl⟩ := yaml.page_of_parseFrontmatter reads
      exact ⟨.inl rfl, keys_toPageMeta strict strict.id, fun toml => absurd toml isToml⟩
    · cases reads

/-- A table that was read prints as it did, also without a field, and every field shows. -/
structure Copyable (crate : TomlCrate) (page copy : Vault.PageMeta Time TomlValue)
    (system : TomlTable) : Prop extends Understood crate copy system where
  cut : ∀ before after, tomlText crate copy system = before ++ (fenceLine ++ after) →
    crate.parse (before ++ ['\n']) = none
  again : (∀ key ∈ copy.extra.keys, key ∉ systemKeys) → ∀ table rest,
    crate.parse (tomlText crate copy system) = some table → Left table rest systemKeys.reverse →
    ∀ key, crate.print (rest.erase key) = crate.print (copy.extra.erase key)
  tells : ∀ key, page.extra.value key ≠ none →
    crate.print (page.extra.erase key) ≠ crate.print page.extra

variable {system : TomlTable}

theorem Copyable.legible {copy : Vault.PageMeta Time TomlValue}
    (copyable : Copyable crate page copy system) : Legible crate copy system :=
  ⟨tomlText_lines copyable.toUnderstood, copyable.reads, copyable.cut⟩

structure ReadAgain (crate : TomlCrate) (copy : Vault.PageMeta Time TomlValue) (extra : TomlTable) :
    Prop where
  apart : ∀ key ∈ extra.keys, key ∉ systemKeys
  values : ∀ key, Option.Rel TomlValue.Same (extra.value key) (copy.extra.value key)
  prints : ∀ key, crate.print (extra.erase key) = crate.print (copy.extra.erase key)

theorem pageFromParts_copy {copy : Vault.PageMeta Time TomlValue}
    (written : systemTable calendar copy = some system)
    (apart : ∀ key ∈ copy.extra.keys, key ∉ systemKeys)
    (armored : copy.encryption = none ∨ validateAgeArmor body = .ok ())
    (created : ∀ instant ∈ copy.createdAt, Dated calendar instant)
    (updated : ∀ instant ∈ copy.updatedAt, Dated calendar instant)
    (copyable : Copyable crate page copy system) :
    ∃ extra : TomlTable,
      pageFromParts calendar crate validateAgeArmor (tomlText crate copy system) body =
        .ok ({ copy with extra }, body) ∧ ReadAgain crate copy extra := by
  have ⟨table, parses, values⟩ := copyable.reads
  have ⟨extra, read, sameExtra⟩ := metaFromTable_of_joined written apart created updated values
  have left : Left table extra systemKeys.reverse := (extra_of_metaFromTable read copy.id).1
  exact ⟨extra, pageFromParts_of_table parses read armored,
    fun key member isSystem => left.apart key member (mem_reverse.2 isSystem),
    sameExtra, copyable.again apart table extra parses left⟩

variable {extra : TomlTable}

theorem uncopied_copyMeta (sevenHex : SevenHex short.toList)
    (found : extra.value "conflict_of" = some (.string rel)) :
    uncopied page { copyMeta newId rel short page with extra } =
      { page with updatedAt := none, extra := extra.erase "conflict_of" } := by
  unfold uncopied copyMeta
  rw [found]
  cases isTitle : page.title with
  | none => simp [stripConflictSuffix_append _ sevenHex, TomlValue.asStr]
  | some title => simp [stripConflictSuffix_append _ sevenHex]

theorem writePageContent_extra (written : systemTable calendar page = some system)
    (apart : ∀ key ∈ extra.keys, key ∉ systemKeys) :
    writePageContent calendar crate { page with extra } body =
      some ("+++\n".toList ++ (crate.print system ++ encryptionLine crate page
        ++ crate.print extra) ++ "+++\n".toList ++ body) := by
  have other : systemTable calendar { page with extra } = some system := written
  rw [writePageContent, other, map_some, tomlText, extraTable_eq other apart]
  rfl

theorem writePageContent_eq_iff (written : systemTable calendar page = some system)
    (apart : ∀ key ∈ page.extra.keys, key ∉ systemKeys)
    (others : ∀ key ∈ extra.keys, key ∉ systemKeys) :
    writePageContent calendar crate { page with extra } body = writePageContent calendar crate page body
      ↔ crate.print extra = crate.print page.extra := by
  have isPage : writePageContent calendar crate { page with extra := page.extra } body = _ :=
    writePageContent_extra written apart
  rw [writePageContent_extra written others, isPage, some.injEq]
  simp only [append_assoc, append_cancel_left_eq, append_cancel_right_eq]

/-- It is written as the page exactly when the page prints as without what a copy adds. -/
theorem ReadAgain.comparable (again : ReadAgain crate (copyMeta newId rel short page) extra)
    (sevenHex : SevenHex short.toList)
    (written : systemTable calendar { page with updatedAt := none } = some system)
    (apart : ∀ key ∈ page.extra.keys, key ∉ systemKeys) :
    writePageContent calendar crate (uncopied page { copyMeta newId rel short page with extra }) body
        = writePageContent calendar crate { page with updatedAt := none } body ↔
      crate.print (page.extra.erase "conflict_of") = crate.print page.extra := by
  have found : extra.value "conflict_of" = some (.string rel) := by
    have related := again.values "conflict_of"
    rw [value_copyMeta] at related
    generalize extra.value "conflict_of" = value at related ⊢
    obtain ⟨⟨⟩⟩ := related
    rfl
  have others : ∀ key ∈ ExtraMap.keys (extra.erase "conflict_of"), key ∉ systemKeys :=
    fun key member => again.apart key (keys_erase member)
  rw [uncopied_copyMeta sevenHex found, ← erase_copyMeta, ← again.prints]
  exact writePageContent_eq_iff written apart others

/-- Its timestamps and its texts can be written, and it is no copy itself. -/
structure Undone (calendar : Calendar Time) (rel : String) (page : Vault.PageMeta Time TomlValue) :
    Prop where
  created : ∀ instant ∈ page.createdAt, Printable calendar instant
  updated : ∀ instant ∈ page.updatedAt, Printable calendar instant
  unbroken : ∀ text ∈ page.title.getD (fileStem rel) :: rel :: pageTexts page, ¬Breaks text
  original : page.extra.value "conflict_of" = none

def Compares (calendar : Calendar Time) (crate : TomlCrate)
    (validateAgeArmor : List Char → Except String Unit) (yaml : YamlCrate Time)
    (page copy : Vault.PageMeta Time TomlValue) (body : List Char) : Prop :=
  ∃ content other split lines, writePageContent calendar crate copy body = some content ∧
    Vault.parseFrontmatter calendar crate validateAgeArmor yaml.parseFrontmatter content =
      .ok (other, split) ∧
    writePageContent calendar crate { page with updatedAt := none } body = some lines ∧
    writePageContent calendar crate (uncopied page other) split = some lines

theorem compares_iff (sevenHex : SevenHex short.toList)
    (apart : ∀ key ∈ page.extra.keys, key ∉ systemKeys)
    (armored : page.encryption = none ∨ validateAgeArmor body = .ok ())
    (created : ∀ instant ∈ page.createdAt, Dated calendar instant)
    (updated : ∀ instant ∈ page.updatedAt, Dated calendar instant)
    (copyable : ∀ system, systemTable calendar (copyMeta newId rel short page) = some system →
      Copyable crate page (copyMeta newId rel short page) system) :
    Compares calendar crate validateAgeArmor yaml page (copyMeta newId rel short page) body ↔
      Undone calendar rel page := by
  have whole : '\n' ∉ short.toList := sevenHex.not_mem (by decide)
  have copyApart : ∀ key ∈ (copyMeta newId rel short page).extra.keys, key ∉ systemKeys := by
    intro key member
    rcases keys_copyMeta member with rfl | inPage
    · decide
    · exact apart key inPage
  constructor
  · rintro ⟨content, other, split, lines, isContent, reads, isOwn, isOther⟩
    obtain ⟨system, written, -⟩ := map_eq_some_iff.1 isContent
    have isCopyable := copyable system written
    have stamps := systemTable_isSome_iff.1 ⟨system, written⟩
    rw [parseFrontmatter_written isCopyable.legible written isContent] at reads
    split_ifs at reads with broken
    have ⟨extra, isParts, isOwnText⟩ :=
      pageFromParts_copy written copyApart armored created updated isCopyable
    obtain ⟨rfl, rfl⟩ := Prod.mk.inj (Except.ok.inj (isParts.symm.trans reads))
    obtain ⟨ownSystem, isSystem, -⟩ := map_eq_some_iff.1 isOwn
    have same := (isOwnText.comparable sevenHex isSystem apart).1 (isOther.trans isOwn.symm)
    have original : page.extra.value "conflict_of" = none := by
      by_contra present
      exact isCopyable.tells "conflict_of" present same
    refine ⟨(stampValue_isSome_iff created).1 stamps.1, (stampValue_isSome_iff updated).1 stamps.2,
      ?_, original⟩
    rw [← pageTexts_copyMeta whole original]
    intro text member breaks
    exact broken ((fence_tomlText_iff written copyApart isCopyable.toUnderstood).2
      ⟨text, member, breaks⟩)
  · intro undone
    have hasCreated := (stampValue_isSome_iff created).2 undone.created
    have hasUpdated := (stampValue_isSome_iff updated).2 undone.updated
    obtain ⟨system, written⟩ : ∃ system,
        systemTable calendar (copyMeta newId rel short page) = some system :=
      systemTable_isSome_iff.2 ⟨hasCreated, hasUpdated⟩
    obtain ⟨ownSystem, isSystem⟩ : ∃ system,
        systemTable calendar { page with updatedAt := none } = some system :=
      systemTable_isSome_iff.2 ⟨hasCreated, rfl⟩
    have isCopyable := copyable system written
    obtain ⟨content, isContent⟩ : ∃ content,
        writePageContent calendar crate (copyMeta newId rel short page) body = some content :=
      ⟨_, map_eq_some_iff.2 ⟨system, written, rfl⟩⟩
    obtain ⟨lines, isOwn⟩ : ∃ lines,
        writePageContent calendar crate { page with updatedAt := none } body = some lines :=
      ⟨_, map_eq_some_iff.2 ⟨ownSystem, isSystem, rfl⟩⟩
    have unbroken : ¬fenceLine <:+: tomlText crate (copyMeta newId rel short page) system := by
      rw [fence_tomlText_iff written copyApart isCopyable.toUnderstood]
      have unbroken : ∀ text ∈ pageTexts (copyMeta newId rel short page), ¬Breaks text :=
        (pageTexts_copyMeta whole undone.original).2 undone.unbroken
      exact fun ⟨text, member, breaks⟩ => unbroken text member breaks
    have ⟨extra, isParts, isOwnText⟩ :=
      pageFromParts_copy written copyApart armored created updated isCopyable
    have same : crate.print (page.extra.erase "conflict_of") = crate.print page.extra := by
      rw [erase_of_absent undone.original]
    refine ⟨content, _, body, lines, isContent, ?_, isOwn,
      ((isOwnText.comparable sevenHex isSystem apart).2 same).trans isOwn⟩
    rw [parseFrontmatter_written isCopyable.legible written isContent, if_neg unbroken, isParts]

/-! ### A copy that nobody has edited -/

def shown (page : Vault.PageMeta Time TomlValue) : Vault.PageMeta Time TomlValue :=
  { page with extra := page.extra.erase "encryption" }

theorem writePageContent_shown :
    writePageContent calendar crate (shown page) body = writePageContent calendar crate page body := by
  have extra : ∀ system, extraTable (shown page) system = extraTable page system := by
    intro system
    apply Table.eq_of_rows
    show (page.extra.rows.filter _).filter _ = page.extra.rows.filter _
    rw [List.filter_filter]
    congr 1
    funext row
    by_cases encryption : row.1 = "encryption"
    · simp [encryption]
    · simp [encryption]
  have isText : tomlText crate (shown page) = tomlText crate page := by
    funext system
    unfold tomlText
    rw [extra]
    rfl
  unfold writePageContent
  rw [isText]
  rfl

theorem copyMeta_shown :
    copyMeta newId rel short (shown page) = shown (copyMeta newId rel short page) := by
  have extra : (copyMeta newId rel short (shown page)).extra
      = (copyMeta newId rel short page).extra.erase "encryption" := by
    apply Table.eq_of_rows
    show _ = (copyMeta newId rel short page).extra.rows.filter _
    rw [rows_copyMeta, rows_copyMeta, filter_cons_of_pos (by simp)]
    show _ :: (page.extra.rows.filter _).filter _ = _
    congr 1
    exact filter_comm _ _ _
  unfold shown
  rw [← extra]
  rfl

theorem compares_shown :
    Compares calendar crate validateAgeArmor yaml (shown page) (copyMeta newId rel short (shown page))
        body ↔
      Compares calendar crate validateAgeArmor yaml page (copyMeta newId rel short page) body := by
  have own : writePageContent calendar crate { shown page with updatedAt := none } body
      = writePageContent calendar crate { page with updatedAt := none } body :=
    @writePageContent_shown _ calendar crate { page with updatedAt := none } body
  unfold Compares
  rw [copyMeta_shown, writePageContent_shown, own]
  exact Iff.rfl

variable (calendar crate validateAgeArmor)

/-- A text and the copy made of it are made comparable, and are the same. -/
def ComparesEqual (yamlThen yamlNow : YamlCrate Time) (newId : Uuid) (rel short : String)
    (text : List Char) : Prop :=
  ∃ copy lines,
    conflictCopyContent calendar crate validateAgeArmor yamlThen newId rel (asBytes text) short =
      some (asBytes copy) ∧
    comparablePair calendar crate validateAgeArmor yamlNow text copy = .ok (some (lines, lines))

variable {calendar crate validateAgeArmor}

theorem comparesEqual_iff {yamlThen yamlNow : YamlCrate Time} {text : List Char}
    (isMd : (stripEnd ".md" rel).isSome = true)
    (readsThen : Vault.parseFrontmatter calendar crate validateAgeArmor yamlThen.parseFrontmatter text =
      .ok (page, body))
    (reads : Vault.parseFrontmatter calendar crate validateAgeArmor yamlNow.parseFrontmatter text =
      .ok (page, body)) :
    ComparesEqual calendar crate validateAgeArmor yamlThen yamlNow newId rel short text ↔
      Compares calendar crate validateAgeArmor yamlNow page (copyMeta newId rel short page) body := by
  have isCopy : conflictCopyContent calendar crate validateAgeArmor yamlThen newId rel (asBytes text)
      short = (writePageContent calendar crate (copyMeta newId rel short page) body).map asBytes := by
    have notNone : (stripEnd ".md" rel).isNone = false := by
      rw [isNone_eq_false_iff, isMd]
    unfold conflictCopyContent
    rw [notNone, if_neg Bool.false_ne_true, fromUtf8_asBytes]
    simp only [readsThen]
  have isPair : ∀ copy, comparablePair calendar crate validateAgeArmor yamlNow text copy =
      (Vault.parseFrontmatter calendar crate validateAgeArmor yamlNow.parseFrontmatter copy).map
        fun other =>
          (writePageContent calendar crate { page with updatedAt := none } body).bind fun lines =>
            (writePageContent calendar crate (uncopied page other.1) other.2).bind fun others =>
              some (lines, others) := by
    intro copy
    unfold comparablePair
    rw [reads]
    cases Vault.parseFrontmatter calendar crate validateAgeArmor yamlNow.parseFrontmatter copy with
    | error failure => rfl
    | ok other => rfl
  unfold ComparesEqual Compares
  rw [isCopy]
  constructor
  · rintro ⟨copy, lines, isWritten, compared⟩
    have ⟨content, isContent, same⟩ := map_eq_some_iff.1 isWritten
    obtain rfl : content = copy := by
      have again := congrArg fromUtf8 same
      rwa [fromUtf8_asBytes, fromUtf8_asBytes, some.injEq] at again
    rw [isPair] at compared
    cases isOther : Vault.parseFrontmatter calendar crate validateAgeArmor yamlNow.parseFrontmatter
        content with
    | error failure => rw [isOther] at compared; cases compared
    | ok other =>
      rw [isOther] at compared
      have ⟨own, isOwn, compared⟩ := bind_eq_some_iff.1 (Except.ok.inj compared)
      have ⟨otherText, isText, both⟩ := bind_eq_some_iff.1 compared
      obtain ⟨rfl, rfl⟩ := Prod.mk.inj (some.inj both)
      exact ⟨content, other.1, other.2, otherText, isContent, isOther, isOwn, isText⟩
  · rintro ⟨content, other, split, lines, isContent, isOther, isOwn, isText⟩
    refine ⟨content, lines, by rw [isContent]; rfl, ?_⟩
    rw [isPair, isOther, isOwn]
    simp only [Except.map, bind_some, isText]

def Alike (calendar : Calendar Time) (crate : TomlCrate)
    (validateAgeArmor : List Char → Except String Unit) (yamlThen : YamlCrate Time)
    (text : List Char) (page : Vault.PageMeta Time TomlValue) (body : List Char) : Prop :=
  Vault.parseFrontmatter calendar crate validateAgeArmor yamlThen.parseFrontmatter text =
      .ok (page, body) ∧
    "readonly" ∉ page.extra.keys

/-- A page compares equal to its copy exactly when its timestamps and texts can be written and it
is no copy; a legacy page is read alike twice, with no field in the place of the protection. -/
theorem unedited_compares_iff (yamlThen yamlNow : YamlCrate Time) (newId : Uuid) (rel short : String)
    (text : List Char) (page : Vault.PageMeta Time TomlValue) (body : List Char)
    (isMd : (stripEnd ".md" rel).isSome = true) (sevenHex : SevenHex short.toList)
    (reads : Vault.parseFrontmatter calendar crate validateAgeArmor yamlNow.parseFrontmatter text =
      .ok (page, body))
    (created : ∀ instant ∈ page.createdAt, Dated calendar instant)
    (updated : ∀ instant ∈ page.updatedAt, Dated calendar instant)
    (copyable : ∀ system,
      systemTable calendar (copyMeta newId rel short (shown page)) = some system →
      Copyable crate (shown page) (copyMeta newId rel short (shown page)) system) :
    (Alike calendar crate validateAgeArmor yamlThen text page body →
        (ComparesEqual calendar crate validateAgeArmor yamlThen yamlNow newId rel short text ↔
          Undone calendar rel (shown page))) ∧
      ("+++".toList.isPrefixOf text = true →
        Alike calendar crate validateAgeArmor yamlThen text page body) := by
  have ⟨armored, legacy, toml⟩ := found_of_reads reads
  constructor
  · rintro ⟨readsThen, unprotected⟩
    have apart : ∀ key ∈ (shown page).extra.keys, key ∉ systemKeys := by
      intro key member isSystem
      have inPage : key ∈ page.extra.keys := keys_erase member
      rcases legacy key inPage isSystem with rfl | rfl
      · exact not_mem_keys_erase member
      · exact unprotected inPage
    rw [comparesEqual_iff isMd readsThen reads, ← compares_shown]
    exact compares_iff sevenHex apart armored created updated copyable
  · intro isToml
    refine ⟨?_, fun member => toml isToml _ member (by decide)⟩
    unfold Vault.parseFrontmatter at reads ⊢
    rw [if_pos isToml] at reads ⊢
    exact reads

end Read

/-! ### Two pages and one copy -/

def untitledPage : Vault.PageMeta Int TomlValue := { samplePage with
    title := none
    extra := Table.empty }

def copyId : Uuid := .repeated 1

def untitledTable : TomlTable where
  rows := [("id", .string "00000000-0000-0000-0000-000000000000"),
    ("created_at", .datetime "2026-01-01T00:00:00Z")]
  distinct := by decide

def copiedTable : TomlTable where
  rows := untitledTable.rows ++ [("conflict_of", .string "old.md")]
  distinct := by decide

def copySystem : TomlTable where
  rows := [("id", .string "11111111-1111-1111-1111-111111111111"),
    ("title", .string "plan (conflict abc1234)"), ("created_at", .datetime "2026-01-01T00:00:00Z")]
  distinct := by decide

def copyTable : TomlTable where
  rows := copySystem.rows ++ [("conflict_of", .string "plan.md")]
  distinct := by decide

def copyCrate : TomlCrate where
  print := samplePrint
  display := sampleText
  parse text :=
    if text = samplePrint untitledTable then some untitledTable
    else if text = samplePrint copiedTable then some copiedTable
    else if text = samplePrint copyTable then some copyTable
    else none

def noYaml : YamlCrate Int := ⟨fun _ => none, fun _ => none⟩

def pageText (table : TomlTable) : List Char :=
  "+++\n".toList ++ samplePrint table ++ "+++\ntext".toList

def SampleCompares (text : List Char) : Prop :=
  ComparesEqual sampleCalendar copyCrate (fun _ => .ok ()) noYaml noYaml copyId "plan.md" "abc1234"
    text

theorem untitled_reads :
    Vault.parseFrontmatter sampleCalendar copyCrate (fun _ => .ok ()) noYaml.parseFrontmatter
      (pageText untitledTable) = .ok (untitledPage, "text".toList) := by
  have starts : "+++".toList.isPrefixOf (pageText untitledTable) = true := rfl
  have splits : splitFenced (pageText untitledTable) "+++".toList =
      .ok (samplePrint untitledTable, "text".toList) := rfl
  have parses : copyCrate.parse (samplePrint untitledTable) = some untitledTable := by
    simp [copyCrate]
  have fields : metaFromTable sampleCalendar untitledTable =
      .ok (some untitledPage.id, fun id => { untitledPage with id }) := by
    rfl
  have parts : pageFromParts sampleCalendar copyCrate (fun _ => .ok ())
      (samplePrint untitledTable) "text".toList = .ok (untitledPage, "text".toList) :=
    pageFromParts_of_table parses fields (.inl rfl)
  rw [Vault.parseFrontmatter, if_pos starts, splits]
  exact parts

def copyPage : Vault.PageMeta Int TomlValue :=
  copyMeta copyId "plan.md" "abc1234" (shown untitledPage)

theorem copySystem_written : systemTable sampleCalendar copyPage = some copySystem := by
  rfl

theorem copy_text : tomlText copyCrate copyPage copySystem = samplePrint copyTable := by
  decide

theorem copy_parses : copyCrate.parse (samplePrint copyTable) = some copyTable := by
  have notUntitled : samplePrint copyTable ≠ samplePrint untitledTable := by decide
  have notCopied : samplePrint copyTable ≠ samplePrint copiedTable := by decide
  simp only [copyCrate, if_neg notUntitled, if_neg notCopied, if_true]

theorem copyable_untitled : Copyable copyCrate (shown untitledPage) copyPage copySystem where
  systemLines := ⟨(samplePrint copySystem).dropLast, by decide⟩
  extraLines := .inr ⟨(samplePrint copyPage.extra).dropLast, by decide⟩
  extraBegins := by decide
  systemFence := by decide +kernel
  extraFence := by decide
  encryptionFence := fun encryption found => nomatch found
  reads := ⟨copyTable, by rw [copy_text]; exact copy_parses, reads_of_rows rfl⟩
  cut := by
    intro before after isText
    have unbroken : ¬fenceLine <:+: samplePrint copyTable := by decide +kernel
    rw [copy_text] at isText
    exact absurd ⟨before, after, by rw [isText, append_assoc]⟩ unbroken
  again := by
    intro _ table rest parses left key
    rw [copy_text, copy_parses, some.injEq] at parses
    have isExtra : rest = copyPage.extra := by
      apply Table.eq_of_rows
      rw [left, ← parses]
      rfl
    rw [isExtra]
  tells := fun key present => absurd rfl present

/-- A page without a title compares equal to its copy. -/
theorem unedited_compares_iff_untitled : SampleCompares (pageText untitledTable) := by
  have created : ∀ instant ∈ untitledPage.createdAt, Dated sampleCalendar instant := by
    intro instant isCreated
    obtain rfl := some.inj isCreated
    exact sample_dated
  have compares := unedited_compares_iff noYaml noYaml copyId "plan.md" "abc1234"
    (pageText untitledTable) untitledPage "text".toList (by decide)
    ⟨by decide, List.all_eq_true.1 (by decide)⟩ untitled_reads created
      (fun _ none => (nomatch none)) fun system written => by
      obtain rfl := some.inj (copySystem_written.symm.trans written)
      exact copyable_untitled
  refine (compares.1 (compares.2 (by decide))).2 ⟨?_, fun _ none => (nomatch none), ?_, rfl⟩
  · intro instant isCreated
    obtain rfl := some.inj isCreated
    exact ⟨by decide, by decide⟩
  · decide

/-- What a copied page is a copy of is taken off the new copy, and stays on the page. -/
theorem copied_page_differs :
    (Vault.parseFrontmatter sampleCalendar copyCrate (fun _ => .ok ()) noYaml.parseFrontmatter
        (pageText copiedTable)).toOption.isSome = true ∧
      ¬SampleCompares (pageText copiedTable) := by
  have differs : ((Vault.parseFrontmatter sampleCalendar copyCrate (fun _ => .ok ())
      noYaml.parseFrontmatter (pageText copiedTable)).toOption.bind fun parts =>
        (writePageContent sampleCalendar copyCrate (copyMeta copyId "plan.md" "abc1234" parts.1)
          parts.2).bind fun copy =>
            (comparablePair sampleCalendar copyCrate (fun _ => .ok ()) noYaml (pageText copiedTable)
              copy).toOption.bind fun pair => pair.map fun texts => decide (texts.1 = texts.2))
      = some false := by
    decide +kernel
  refine ⟨by decide +kernel, ?_⟩
  rintro ⟨copy, lines, isCopy, compared⟩
  have isMd : (stripEnd ".md" "plan.md").isNone = false := by decide
  rw [conflictCopyContent, isMd, if_neg Bool.false_ne_true, fromUtf8_asBytes] at isCopy
  cases read : Vault.parseFrontmatter sampleCalendar copyCrate (fun _ => .ok ())
      noYaml.parseFrontmatter (pageText copiedTable) with
  | error failure => rw [read] at differs; cases differs
  | ok parts =>
    simp only [read] at isCopy
    obtain ⟨content, isContent, same⟩ := map_eq_some_iff.1 isCopy
    have again := congrArg fromUtf8 same
    rw [fromUtf8_asBytes, fromUtf8_asBytes, some.injEq] at again
    simp [read, Except.toOption, isContent, again, compared] at differs

end Clepsydra.Sync.Comparable
