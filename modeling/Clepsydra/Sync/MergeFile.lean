import Clepsydra.Library.Utf8
import Clepsydra.Sync.MergeDriver
import Clepsydra.Vault.Tree
import Clepsydra.Vault.Written

/-!
Owns: the merge of the three versions of one file, as git asks for it.

Proves: an encrypted page merged from pages has the body both sides have; a conflict that is found
first leaves our version.
-/

namespace Clepsydra.Sync

open Library Library.Utf8 Vault Option

structure DriverOutcome where
  content : Bytes
  clean : Bool

/-- `text_merge`: the text and whether it is clean, or nothing where git could not run. -/
abbrev TextMerge := Bytes → Bytes → Bytes → Option (Bytes × Bool)

section Driver

variable {Time : Type} (calendar : Calendar Time) (crate : TomlCrate)
  (validateAgeArmor : List Char → Except String Unit)
  (legacyYaml : List Char → Except FrontmatterError (Vault.PageMeta Time TomlValue × List Char))

def parsePage (bytes : Bytes) : Option (Vault.PageMeta Time TomlValue × List Char) :=
  (fromUtf8 bytes).bind fun text =>
    (parseFrontmatter calendar crate validateAgeArmor legacyYaml text).toOption

variable [LinearOrder Time] [BEq TomlValue]

/-- `merge`; `none` where writing the page panics. -/
def merge (textMerge : TextMerge) (base ours theirs : Bytes) : Option DriverOutcome :=
  let conflict : Option DriverOutcome := some ⟨ours, false⟩
  let parse := parsePage calendar crate validateAgeArmor legacyYaml
  match parse ours, parse theirs with
  | some (oursMeta, oursBody), some (theirsMeta, theirsBody) =>
    -- two different pages at one path
    if oursMeta.id ≠ theirsMeta.id then conflict
    -- an armor is never merged
    else if (oursMeta.encryption.isSome || theirsMeta.encryption.isSome)
        && oursBody != theirsBody then conflict
    else
      match mergeMeta ((parse base).map Prod.fst) oursMeta theirsMeta with
      | none => conflict
      | some page =>
        let baseBody := ((parse base).map Prod.snd).getD []
        match textMerge (asBytes baseBody) (asBytes oursBody) (asBytes theirsBody) with
        | none => conflict
        | some (body, clean) =>
          (writePageContent calendar crate page (fromUtf8Lossy body)).map fun content =>
            ⟨asBytes content, clean⟩
  | _, _ =>
    -- not two pages
    match textMerge base ours theirs with
    | some (content, clean) => some ⟨content, clean⟩
    | none => conflict

end Driver

section Merged

variable {Time : Type} {calendar : Calendar Time} {crate : TomlCrate}
  {validateAgeArmor : List Char → Except String Unit}
  {legacyYaml : List Char → Except FrontmatterError (Vault.PageMeta Time TomlValue × List Char)}

theorem parsePage_asBytes {text : List Char} {page : Vault.PageMeta Time TomlValue}
    {body : List Char} :
    parsePage calendar crate validateAgeArmor legacyYaml (asBytes text) = some (page, body)
      ↔ parseFrontmatter calendar crate validateAgeArmor legacyYaml text = .ok (page, body) := by
  rw [parsePage, fromUtf8_asBytes, bind_some]
  cases parseFrontmatter calendar crate validateAgeArmor legacyYaml text with
  | ok | error => simp [Except.toOption]

variable [LinearOrder Time] [BEq TomlValue]

theorem encryption_of_merges {base : Option (Vault.PageMeta Time TomlValue)}
    {ours theirs merged : Vault.PageMeta Time TomlValue}
    (isMerged : mergeMeta base ours theirs = some merged)
    (isEncrypted : merged.encryption.isSome = true) :
    (ours.encryption.isSome || theirs.encryption.isSome) = true := by
  have isScalar := (merges_of_mergeMeta isMerged).encryption
  unfold scalar3 at isScalar
  rw [Bool.or_eq_true]
  by_cases same : (ours.encryption == theirs.encryption) = true
  · rw [if_pos same, some.injEq] at isScalar
    rw [← isScalar] at isEncrypted
    exact .inl isEncrypted
  · rw [if_neg same] at isScalar
    split at isScalar
    · split_ifs at isScalar
      · rw [← some.inj isScalar] at isEncrypted
        exact .inr isEncrypted
      · rw [← some.inj isScalar] at isEncrypted
        exact .inl isEncrypted
    · cases isScalar

theorem merge_of_pages {textMerge : TextMerge} {base ours theirs : Bytes}
    {oursMeta theirsMeta : Vault.PageMeta Time TomlValue} {oursBody theirsBody : List Char}
    (isOurs : parsePage calendar crate validateAgeArmor legacyYaml ours = some (oursMeta, oursBody))
    (isTheirs : parsePage calendar crate validateAgeArmor legacyYaml theirs =
      some (theirsMeta, theirsBody)) {outcome : DriverOutcome}
    (merged : merge calendar crate validateAgeArmor legacyYaml textMerge base ours theirs =
      some outcome) (isClean : outcome.clean = true) :
    ((oursMeta.encryption.isSome || theirsMeta.encryption.isSome) = true → oursBody = theirsBody) ∧
      ∃ page baseBody body content,
        mergeMeta ((parsePage calendar crate validateAgeArmor legacyYaml base).map Prod.fst)
          oursMeta theirsMeta = some page ∧
        textMerge (asBytes baseBody) (asBytes oursBody) (asBytes theirsBody) = some (body, true) ∧
        writePageContent calendar crate page (fromUtf8Lossy body) = some content ∧
        outcome.content = asBytes content := by
  have dirty : some (⟨ours, false⟩ : DriverOutcome) ≠ some outcome := by
    intro same
    rw [← some.inj same] at isClean
    cases isClean
  unfold merge at merged
  simp only [isOurs, isTheirs] at merged
  by_cases apart : oursMeta.id ≠ theirsMeta.id
  · rw [if_pos apart] at merged
    exact absurd merged dirty
  rw [if_neg apart] at merged
  by_cases mangled : ((oursMeta.encryption.isSome || theirsMeta.encryption.isSome)
      && oursBody != theirsBody) = true
  · rw [if_pos mangled] at merged
    exact absurd merged dirty
  rw [if_neg mangled] at merged
  refine ⟨?_, ?_⟩
  · intro encrypted
    simpa [encrypted] using mangled
  · split at merged
    · exact absurd merged dirty
    · rename_i page isPage
      split at merged
      · exact absurd merged dirty
      · rename_i body clean isBody
        obtain ⟨content, isContent, rfl⟩ := map_eq_some_iff.1 merged
        have isClean : clean = true := isClean
        exact ⟨page, _, body, content, isPage, isClean ▸ isBody, isContent, rfl⟩

/-- A clean merge read as encrypted has the body of both sides, an armor. A sure conflict leaves
our version. -/
theorem merge_keeps_armor (textMerge : TextMerge) (base ours theirs : Bytes)
    (unchanged : ∀ base both, textMerge base both both = some (both, true))
    (legible : ∀ oursMeta oursBody theirsMeta theirsBody page system,
      parsePage calendar crate validateAgeArmor legacyYaml ours = some (oursMeta, oursBody) →
      parsePage calendar crate validateAgeArmor legacyYaml theirs = some (theirsMeta, theirsBody) →
      mergeMeta ((parsePage calendar crate validateAgeArmor legacyYaml base).map Prod.fst) oursMeta
        theirsMeta = some page →
      systemTable calendar page = some system → Legible crate page system) :
    (∀ oursMeta oursBody theirsMeta theirsBody,
      parsePage calendar crate validateAgeArmor legacyYaml ours = some (oursMeta, oursBody) →
      parsePage calendar crate validateAgeArmor legacyYaml theirs = some (theirsMeta, theirsBody) →
      ∀ outcome,
        merge calendar crate validateAgeArmor legacyYaml textMerge base ours theirs = some outcome →
        outcome.clean = true →
        ∀ page body, parsePage calendar crate validateAgeArmor legacyYaml outcome.content =
            some (page, body) →
          page.encryption.isSome = true →
          body = oursBody ∧ body = theirsBody ∧ validateAgeArmor body = .ok ()) ∧
    ((∀ answer, (merge calendar crate validateAgeArmor legacyYaml (fun _ _ _ => answer) base ours
        theirs).map DriverOutcome.clean = some false) →
      merge calendar crate validateAgeArmor legacyYaml textMerge base ours theirs =
        some ⟨ours, false⟩) := by
  constructor
  · intro oursMeta oursBody theirsMeta theirsBody isOurs isTheirs outcome merged isClean page body
      isPage isEncrypted
    have ⟨sameBodies, written, baseBody, text, content, isMerged, isText, isContent, isOutcome⟩ :=
      merge_of_pages isOurs isTheirs merged isClean
    obtain ⟨system, isSystem, -⟩ := map_eq_some_iff.1 isContent
    rw [isOutcome, parsePage_asBytes] at isPage
    have ⟨isBody, isPlain, isArmor⟩ :=
      read_of_written (legible _ _ _ _ _ _ isOurs isTheirs isMerged isSystem) isSystem isContent
        isPage
    have encrypted : written.encryption.isSome = true := by
      by_contra plain
      rw [isPlain (by simpa using plain)] at isEncrypted
      cases isEncrypted
    have same := sameBodies (encryption_of_merges isMerged encrypted)
    rw [← same, unchanged, some.injEq, Prod.mk.injEq] at isText
    have isOursBody : body = oursBody := by
      rw [isBody, ← isText.1, fromUtf8Lossy_asBytes]
    exact ⟨isOursBody, isOursBody.trans same, isArmor (isSome_iff_ne_none.1 isEncrypted)⟩
  · intro always
    have answered := always (some ([], true))
    unfold merge at answered ⊢
    -- A text merge that is clean makes the merge clean, wherever it is asked.
    cases isOurs : parsePage calendar crate validateAgeArmor legacyYaml ours with
    | none =>
      simp only [isOurs] at answered
      cases answered
    | some oursPage =>
      cases isTheirs : parsePage calendar crate validateAgeArmor legacyYaml theirs with
      | none =>
        simp only [isOurs, isTheirs] at answered
        cases answered
      | some theirsPage =>
        simp only [isOurs, isTheirs] at answered ⊢
        by_cases apart : oursPage.1.id ≠ theirsPage.1.id
        · rw [if_pos apart]
        rw [if_neg apart] at answered ⊢
        by_cases mangled : ((oursPage.1.encryption.isSome || theirsPage.1.encryption.isSome)
            && oursPage.2 != theirsPage.2) = true
        · rw [if_pos mangled]
        rw [if_neg mangled] at answered ⊢
        split at answered
        · rfl
        · rw [map_map] at answered
          obtain ⟨content, -, isDirty⟩ := map_eq_some_iff.1 answered
          cases isDirty

theorem merge_same {textMerge : TextMerge} {version : Bytes}
    {page : Vault.PageMeta Time TomlValue} {body content : List Char}
    (reads : parsePage calendar crate validateAgeArmor legacyYaml version = some (page, body))
    (merges : mergeMeta (some page) page page = some page)
    (unchanged : textMerge (asBytes body) (asBytes body) (asBytes body) = some (asBytes body, true))
    (writes : writePageContent calendar crate page body = some content) :
    merge calendar crate validateAgeArmor legacyYaml textMerge version version version =
      some ⟨asBytes content, true⟩ := by
  unfold merge
  simp [reads, merges, unchanged, fromUtf8Lossy_asBytes, writes]

end Merged

/-! ### A sealed page -/

def mergeUnchanged : TextMerge := fun base ours theirs =>
  if ours = theirs then some (ours, true)
  else if base = ours then some (theirs, true)
  else if base = theirs then some (ours, true)
  else some (ours ++ theirs, false)

def sealedArmor : List Char :=
  "-----BEGIN AGE ENCRYPTED FILE-----\n".toList
    ++ "YWdlLWVuY3J5cHRpb24ub3JnL3YxCi0+IFgyNTUxOSB0ZXN0LUEKLS0tCloK\n".toList
    ++ "-----END AGE ENCRYPTED FILE-----\n".toList

def sealedKey : EncryptionMeta := ⟨"key", by decide⟩

def sealedPage : Vault.PageMeta Int TomlValue := { samplePage with
    title := none
    createdAt := none
    encryption := some sealedKey
    extra := Table.empty }

def sealedSystem : TomlTable where
  rows := [("id", .string "00000000-0000-0000-0000-000000000000")]
  distinct := by decide

def sealedTable : TomlTable where
  rows := sealedSystem.rows ++ [("encryption", encryptionValue sealedKey)]
  distinct := by decide

def sealedToml : List Char := "id = \"00000000-0000-0000-0000-000000000000\"\n".toList
    ++ "encryption = \x7b format = \"age\", version = 1, key_id = \"key\" \x7d\n".toList

def sealedCrate : TomlCrate where
  print := samplePrint
  display _ := "\x7b format = \"age\", version = 1, key_id = \"key\" \x7d".toList
  parse text := if text = sealedToml then some sealedTable else none

def sealedText : List Char := "+++\n".toList ++ sealedToml ++ "+++\n".toList ++ sealedArmor

theorem sealed_splits : splitFenced sealedText "+++".toList = .ok (sealedToml, sealedArmor) := by
  decide +kernel

theorem sealed_fields : metaFromTable sampleCalendar sealedTable =
      .ok (some sealedPage.id, fun id => { sealedPage with id }) := by
  rfl

theorem sealed_reads :
    parseFrontmatter sampleCalendar sealedCrate (fun _ => .ok ()) (fun _ => .error .yaml)
      sealedText = .ok (sealedPage, sealedArmor) := by
  have starts : "+++".toList.isPrefixOf sealedText = true := by decide
  have parses : sealedCrate.parse sealedToml = some sealedTable := by
    simp [sealedCrate]
  have parts : pageFromParts sampleCalendar sealedCrate (fun _ => .ok ()) sealedToml sealedArmor =
      .ok (sealedPage, sealedArmor) :=
    pageFromParts_of_table parses sealed_fields (.inr rfl)
  rw [parseFrontmatter, if_pos starts, sealed_splits]
  exact parts

theorem sealed_written : systemTable sampleCalendar sealedPage = some sealedSystem := by
  rfl

theorem sealed_tomlText : tomlText sealedCrate sealedPage sealedSystem = sealedToml := by
  decide

theorem sealed_legible : Legible sealedCrate sealedPage sealedSystem where
  lines := ⟨sealedToml.dropLast, by rw [sealed_tomlText]; decide⟩
  reads := ⟨sealedTable, by rw [sealed_tomlText]; simp [sealedCrate], reads_of_rows rfl⟩
  cut := by
    intro before after isText
    have unbroken : ¬fenceLine <:+: sealedToml := by decide +kernel
    rw [sealed_tomlText] at isText
    exact absurd ⟨before, after, by rw [isText, List.append_assoc]⟩ unbroken

section Runs

/-- Equality of texts; the sealed page has no extra fields. -/
local instance sampleEquality : BEq TomlValue where
  beq first second := first.asStr.isSome && first.asStr == second.asStr

def sealedBytes : Bytes := asBytes sealedText

def readSealed : Bytes → Option (Vault.PageMeta Int TomlValue × List Char) :=
  parsePage sampleCalendar sealedCrate (fun _ => .ok ()) fun _ => .error .yaml

def mergeSealed (textMerge : TextMerge) : Bytes → Bytes → Bytes → Option DriverOutcome :=
  merge sampleCalendar sealedCrate (fun _ => .ok ()) (fun _ => .error .yaml) textMerge

theorem readSealed_sealed : readSealed sealedBytes = some (sealedPage, sealedArmor) :=
  parsePage_asBytes.2 sealed_reads

theorem sealed_merges : mergeMeta (some sealedPage) sealedPage sealedPage = some sealedPage := by
  rfl

theorem sealed_writes :
    writePageContent sampleCalendar sealedCrate sealedPage sealedArmor = some sealedText := by
  unfold writePageContent sealedText
  rw [sealed_written, map_some, sealed_tomlText]

theorem mergeSealed_sealed :
    mergeSealed mergeUnchanged sealedBytes sealedBytes sealedBytes = some ⟨sealedBytes, true⟩ :=
  merge_same readSealed_sealed sealed_merges (if_pos rfl) sealed_writes

/-- Both sides have the armor the base has. -/
theorem merge_keeps_armor_sealed :
    mergeSealed mergeUnchanged sealedBytes sealedBytes sealedBytes = some ⟨sealedBytes, true⟩ ∧
      ∀ page body, readSealed sealedBytes = some (page, body) → page.encryption.isSome = true →
        body = sealedArmor := by
  refine ⟨mergeSealed_sealed, fun page body isPage isEncrypted => ?_⟩
  have unchanged : ∀ base both, mergeUnchanged base both both = some (both, true) := by
    intro base both
    rw [mergeUnchanged, if_pos rfl]
  have kept := (merge_keeps_armor mergeUnchanged sealedBytes sealedBytes sealedBytes unchanged (by
      intro oursMeta oursBody theirsMeta theirsBody page system isOurs isTheirs isMerged written
      obtain ⟨rfl, -⟩ := Prod.mk.inj (some.inj (readSealed_sealed.symm.trans isOurs))
      obtain ⟨rfl, -⟩ := Prod.mk.inj (some.inj (readSealed_sealed.symm.trans isTheirs))
      have isBase : parsePage sampleCalendar sealedCrate (fun _ => .ok ()) (fun _ => .error .yaml)
          sealedBytes = some (sealedPage, sealedArmor) := readSealed_sealed
      rw [isBase, map_some, sealed_merges] at isMerged
      obtain rfl := some.inj isMerged
      obtain rfl := some.inj (sealed_written.symm.trans written)
      exact sealed_legible)).1
  exact (kept _ _ _ _ readSealed_sealed readSealed_sealed _ mergeSealed_sealed rfl page body isPage
    isEncrypted).1

def plainBytes : Bytes := asBytes "notes\n".toList

theorem readSealed_plain : readSealed plainBytes = none := by
  have fails : parseFrontmatter sampleCalendar sealedCrate (fun _ => .ok ())
      (fun _ => .error .yaml) "notes\n".toList = .error .notFound := by
    rfl
  unfold readSealed plainBytes parsePage
  rw [fromUtf8_asBytes, bind_some, fails]
  rfl

/-- A file that is no page and an encrypted page are merged as texts. -/
theorem encrypted_over_plain :
    ¬∀ base ours theirs outcome, mergeSealed mergeUnchanged base ours theirs = some outcome →
      outcome.clean = true → ∀ page body, readSealed outcome.content = some (page, body) →
      page.encryption.isSome = true →
      (∃ oursMeta, readSealed ours = some (oursMeta, body)) ∧
        ∃ theirsMeta, readSealed theirs = some (theirsMeta, body) := by
  intro holds
  have different : plainBytes ≠ sealedBytes := by
    intro same
    have reads := readSealed_sealed
    rw [← same, readSealed_plain] at reads
    cases reads
  have merged : mergeSealed mergeUnchanged plainBytes plainBytes sealedBytes =
      some ⟨sealedBytes, true⟩ := by
    have noPage := readSealed_plain
    unfold readSealed at noPage
    unfold mergeSealed merge
    simp only [noPage]
    rw [mergeUnchanged, if_neg different, if_pos rfl]
  obtain ⟨⟨oursMeta, isOurs⟩, -⟩ := holds _ _ _ _ merged rfl _ _ readSealed_sealed rfl
  rw [readSealed_plain] at isOurs
  cases isOurs

end Runs

end Clepsydra.Sync
