import Clepsydra.Sync.ConflictCopy
import Clepsydra.Vault.LegacyYaml
import Clepsydra.Vault.Written

/-!
Owns: the reading of a page that mends its frontmatter, and may ask to write the file again.

Proves: a file with a warning or markers is left as it is, no text of the body is lost, and exactly
when a file that was written again is not written a third time.
-/

namespace Clepsydra.Vault

open Library Library.Fallible List Option
open Sync (lines hasConflictMarkers)

/-! ### Repair -/

/-- What `parse_or_repair_frontmatter` returns. -/
structure Repaired (Time : Type) where
  page : PageMeta Time TomlValue
  body : List Char
  rewrote : Bool
  warning : Option String

structure Supply (Time : Type) where
  newId : Uuid
  now : Time

def FrontmatterError.display : FrontmatterError → String
  | .notFound => "no frontmatter found (missing +++ or --- fences)"
  | .toml => "failed to parse TOML frontmatter"
  | .yaml => "failed to parse YAML frontmatter"
  | .missingId => "frontmatter is missing a valid id"
  | .invalidField message => "invalid frontmatter field: " ++ message
  | .unterminated => "unterminated frontmatter (missing closing fence)"

section Repair

variable {Time : Type}

/-- `PageMeta::new`. -/
def Supply.newPage (supply : Supply Time) : PageMeta Time TomlValue where
  id := supply.newId
  title := none
  tags := []
  aliases := []
  kind := none
  project := none
  createdAt := some supply.now
  updatedAt := some supply.now
  encryption := none
  readonly := none
  extra := Table.empty

/-- `ensure_populated_meta`, and whether a field was filled in. -/
def ensurePopulatedMeta (now : Time) (page : PageMeta Time TomlValue) :
    PageMeta Time TomlValue × Bool :=
  let createdAt := page.createdAt.or (some now)
  ({ page with createdAt, updatedAt := page.updatedAt.or createdAt },
    page.createdAt.isNone || page.updatedAt.isNone)

/-- `parse_or_repair_frontmatter` of `legacy_yaml`. -/
def YamlCrate.parseOrRepair (yaml : YamlCrate Time) (supply : Supply Time) (content : List Char) :
    Repaired Time :=
  match yaml.parseFrontmatter content with
  | .ok (page, body) =>
    let (page, rewrote) := ensurePopulatedMeta supply.now page
    ⟨page, body, rewrote, none⟩
  | .error _ =>
    match splitFenced content "---".toList with
    | .ok (text, body) =>
      match yaml.loose text with
      | some loose =>
        let page := loose.toPageMeta (loose.id.getD supply.newId)
        ⟨(ensurePopulatedMeta supply.now page).1, body, true, none⟩
      | none =>
        ⟨supply.newPage, body, false, some ("frontmatter YAML is unparseable; "
          ++ "indexing with default metadata (file not modified)")⟩
    | .error _ => ⟨supply.newPage, content, true, none⟩

variable (calendar : Calendar Time) (crate : TomlCrate) (yaml : YamlCrate Time)
  (validateAgeArmor : List Char → Except String Unit) (supply : Supply Time)

def repairToml (toml body : List Char) : Repaired Time :=
  match crate.parse toml with
  | none =>
    ⟨supply.newPage, body, false, some ("frontmatter TOML is unparseable; "
      ++ "indexing with default metadata (file not modified)")⟩
  | some table =>
    match metaFromTable calendar table with
    | .error failure =>
      ⟨supply.newPage, body, false, some ("frontmatter TOML is invalid (" ++ failure.display
        ++ "); indexing with default metadata (file not modified)")⟩
    | .ok (id, withId) =>
      let page := withId (id.getD supply.newId)
      match validateEncryptedBody validateAgeArmor page body with
      | .error failure =>
        ⟨page, body, false, some ("encrypted body is invalid (" ++ failure.display
          ++ "); indexing as protected with parsed metadata (file not modified)")⟩
      | .ok _ =>
        let (populated, changed) := ensurePopulatedMeta supply.now page
        ⟨populated, body, id.isNone || changed, none⟩

/-- `parse_or_repair_frontmatter_inner`. -/
def parseOrRepairInner (content : List Char) : Repaired Time :=
  if "+++".toList.isPrefixOf content then
    match splitFenced content "+++".toList with
    | .ok (toml, body) => repairToml calendar crate validateAgeArmor supply toml body
    -- an open fence: all is body
    | .error _ => ⟨supply.newPage, content, true, none⟩
  else if "---".toList.isPrefixOf content then yaml.parseOrRepair supply content
  else ⟨supply.newPage, content, true, none⟩

def conflictNote : String :=
  "contains merge conflict markers; indexing read-only (file not modified)"

/-- `parse_or_repair_frontmatter`. -/
def parseOrRepair (content : List Char) : Repaired Time :=
  let inner := parseOrRepairInner calendar crate yaml validateAgeArmor supply content
  if hasConflictMarkers (String.ofList content) then
    { inner with
      rewrote := false
      warning := some (match inner.warning with
        | some warning => conflictNote ++ "; " ++ warning
        | none => conflictNote) }
  else inner

end Repair

/-! ### Files that are left as they are -/

section Kept

variable {Time : Type} {calendar : Calendar Time} {crate : TomlCrate} {yaml : YamlCrate Time}
  {validateAgeArmor : List Char → Except String Unit} {supply : Supply Time} {content : List Char}

theorem suffix_of_splitFenced {fence toml body : List Char}
    (splits : splitFenced content fence = .ok (toml, body)) : body <:+ content := by
  have trimmed : ∀ after : List Char,
      (if ['\n'].isPrefixOf after then after.tail else after) <:+ after := by
    intro after
    split_ifs
    · exact tail_suffix after
    · exact suffix_refl after
  unfold splitFenced at splits
  split at splits
  · rename_i starts
    split at splits
    · cases splits
    · rename_i before rest opened
      have inContent : rest <:+ content := by
        have isDropped := (append_of_splitOnce opened).1
        have isRest : rest <:+ content.drop fence.length :=
          ⟨before ++ ['\n'], by rw [isDropped, append_assoc]⟩
        exact isRest.trans (drop_suffix _ _)
      split at splits
      · rename_i text after closed
        obtain ⟨-, rfl⟩ := Prod.mk.inj (Except.ok.inj splits)
        have isRest := (append_of_splitOnce closed).1
        have isAfter : after <:+ rest := ⟨text ++ '\n' :: fence, by rw [isRest, append_assoc]⟩
        exact ((trimmed after).trans isAfter).trans inContent
      · split_ifs at splits
        obtain ⟨-, rfl⟩ := Prod.mk.inj (Except.ok.inj splits)
        exact ((trimmed _).trans (drop_suffix _ _)).trans inContent
  · cases splits

structure Repaired.Sound (repaired : Repaired Time) (content : List Char) : Prop where
  left : repaired.warning.isSome = true → repaired.rewrote = false
  kept : repaired.body <:+ content

theorem repairToml_sound {toml body : List Char} (kept : body <:+ content) :
    (repairToml calendar crate validateAgeArmor supply toml body).Sound content := by
  unfold repairToml
  split
  · exact ⟨fun _ => rfl, kept⟩
  · split
    · exact ⟨fun _ => rfl, kept⟩
    · dsimp only
      split
      · exact ⟨fun _ => rfl, kept⟩
      · exact ⟨fun warned => (nomatch warned), kept⟩

theorem parseOrRepair_yaml_sound (content : List Char) :
    (yaml.parseOrRepair supply content).Sound content := by
  unfold YamlCrate.parseOrRepair
  split
  · rename_i page body reads
    unfold YamlCrate.parseFrontmatter at reads
    have ⟨⟨text, split⟩, splits, reads⟩ := of_bind_ok reads
    have isBody : split = body := by
      simp only at reads
      split at reads
      · exact congrArg Prod.snd (Except.ok.inj reads)
      · cases reads
    exact ⟨fun warned => (nomatch warned), isBody ▸ suffix_of_splitFenced splits⟩
  · split
    · rename_i splits
      split
      · exact ⟨fun warned => (nomatch warned), suffix_of_splitFenced splits⟩
      · exact ⟨fun _ => rfl, suffix_of_splitFenced splits⟩
    · exact ⟨fun warned => (nomatch warned), suffix_refl content⟩

theorem parseOrRepairInner_sound (content : List Char) :
    (parseOrRepairInner calendar crate yaml validateAgeArmor supply content).Sound content := by
  unfold parseOrRepairInner
  split_ifs
  · split
    · rename_i splits
      exact repairToml_sound (suffix_of_splitFenced splits)
    · exact ⟨fun warned => (nomatch warned), suffix_refl content⟩
  · exact parseOrRepair_yaml_sound content
  · exact ⟨fun warned => (nomatch warned), suffix_refl content⟩

theorem parseOrRepair_sound (content : List Char) :
    (parseOrRepair calendar crate yaml validateAgeArmor supply content).Sound content := by
  have inner := @parseOrRepairInner_sound _ calendar crate yaml validateAgeArmor supply content
  unfold parseOrRepair
  dsimp only
  split_ifs
  · exact ⟨fun _ => rfl, inner.kept⟩
  · exact inner

theorem rewrote_of_markers (marked : hasConflictMarkers (String.ofList content) = true) :
    (parseOrRepair calendar crate yaml validateAgeArmor supply content).rewrote = false := by
  unfold parseOrRepair
  rw [if_pos marked]

end Kept

/-! ### Markers -/

inductive MarkerKind where
  | ours
  | separator
  | theirs
deriving DecidableEq

def MarkerKind.test : MarkerKind → List Char → Bool
  | .ours, line => "<<<<<<< ".toList.isPrefixOf line
  | .separator, line => line = "=======".toList
  | .theirs, line => ">>>>>>> ".toList.isPrefixOf line

/-- Behind the last line of a text with a marker the printer writes quotes. -/
def MarkerKind.Inside (kind : MarkerKind) (text : String) : Prop := '\n' ∈ text.toList ∧
    ∃ line ∈ text.toList.splitOn '\n', kind.test line = true ∧
      (kind = .separator → line ∈ (text.toList.splitOn '\n').dropLast)

instance (kind : MarkerKind) (text : String) : Decidable (kind.Inside text) :=
  inferInstanceAs (Decidable ('\n' ∈ text.toList ∧
    ∃ line ∈ text.toList.splitOn '\n', kind.test line = true ∧
      (kind = .separator → line ∈ (text.toList.splitOn '\n').dropLast)))

theorem hasConflictMarkers_iff (content : String) :
    hasConflictMarkers content = true ↔ ∀ kind : MarkerKind, ∃ line ∈ lines content,
      kind.test line = true := by
  have each : (∀ kind : MarkerKind, ∃ line ∈ lines content, kind.test line = true) ↔
      ((∃ line ∈ lines content, MarkerKind.ours.test line = true) ∧
        ∃ line ∈ lines content, MarkerKind.separator.test line = true) ∧
        ∃ line ∈ lines content, MarkerKind.theirs.test line = true :=
    ⟨fun all => ⟨⟨all .ours, all .separator⟩, all .theirs⟩, fun ⟨⟨ours, separator⟩, theirs⟩ kind =>
      match kind with
      | .ours => ours
      | .separator => separator
      | .theirs => theirs⟩
  rw [each]
  unfold hasConflictMarkers
  simp only [Bool.and_eq_true, List.any_eq_true]
  rfl

theorem lines_append (first second : List Char) : lines (String.ofList (first ++ '\n' :: second))
      = lines (String.ofList (first ++ ['\n'])) ++ lines (String.ofList second) := by
  unfold lines
  simp only [String.toList_ofList]
  have alone : (first ++ ['\n']).splitOn '\n' = first.splitOn '\n' ++ [[]] :=
    splitOn_append_cons_self first []
  have last : ∃ part, (second.splitOn '\n').getLast? = some part :=
    ⟨_, getLast?_eq_some_getLast (splitOn_ne_nil _ _)⟩
  have ⟨part, isLast⟩ := last
  rw [splitOn_append_cons_self, alone, dropLast_append_of_ne_nil (splitOn_ne_nil _ _),
    dropLast_concat, getLast?_append, getLast?_concat, isLast]
  simp

def Conflicted {Time : Type} (page : PageMeta Time TomlValue) (body : List Char) : Prop :=
  ∀ kind : MarkerKind, (∃ line ∈ lines (String.ofList body), kind.test line = true) ∨
    ∃ text ∈ pageTexts page, kind.Inside text

/-- What is taken of TOML for a page that is written and read again. -/
structure Rewritable {Time : Type} (crate : TomlCrate) (page : PageMeta Time TomlValue)
    (system : TomlTable) : Prop extends Understood crate page system where
  cut : ∀ before after, tomlText crate page system = before ++ (fenceLine ++ after) →
    crate.parse (before ++ ['\n']) = none
  marked : ∀ kind : MarkerKind,
    (∃ line ∈ lines (String.ofList (tomlText crate page system)), kind.test line = true) ↔
      ∃ text ∈ pageTexts page, kind.Inside text

theorem Rewritable.legible {Time : Type} {crate : TomlCrate} {page : PageMeta Time TomlValue}
    {system : TomlTable} (rewritable : Rewritable crate page system) :
    Legible crate page system :=
  ⟨tomlText_lines rewritable.toUnderstood, rewritable.reads, rewritable.cut⟩

theorem conflicted_written {Time : Type} {calendar : Calendar Time} {crate : TomlCrate}
    {page : PageMeta Time TomlValue} {system : TomlTable} {body content : List Char}
    (rewritable : Rewritable crate page system) (written : systemTable calendar page = some system)
    (isContent : writePageContent calendar crate page body = some content) :
    hasConflictMarkers (String.ofList content) = true ↔ Conflicted page body := by
  have ⟨toml, ends⟩ := rewritable.legible.lines
  rw [writePageContent, written, map_some, some.injEq] at isContent
  have fence : String.ofList ("+++".toList ++ ['\n']) = "+++\n" := by decide
  have opened : lines (String.ofList content) = lines "+++\n"
      ++ lines (String.ofList (toml ++ '\n' :: ("+++".toList ++ '\n' :: body))) := by
    have cut : content = "+++".toList ++ '\n' :: (toml ++ '\n' :: ("+++".toList ++ '\n' :: body)) := by
      rw [← isContent, ends]
      simp
    rw [cut, lines_append "+++".toList (toml ++ '\n' :: ("+++".toList ++ '\n' :: body)), fence]
  have closed : lines (String.ofList (toml ++ '\n' :: ("+++".toList ++ '\n' :: body)))
      = lines (String.ofList (tomlText crate page system))
        ++ (lines "+++\n" ++ lines (String.ofList body)) := by
    rw [lines_append toml, lines_append "+++".toList body, ends, fence]
  rw [hasConflictMarkers_iff]
  apply forall_congr'
  intro kind
  have noFence : ∀ line ∈ lines "+++\n", kind.test line ≠ true := by
    cases kind <;> decide
  rw [← rewritable.marked kind, opened, closed]
  constructor
  · rintro ⟨line, member, isMarker⟩
    rcases mem_append.1 member with inFence | inRest
    · exact absurd isMarker (noFence line inFence)
    · rcases mem_append.1 inRest with inToml | inLast
      · exact .inr ⟨line, inToml, isMarker⟩
      · rcases mem_append.1 inLast with inFence | inBody
        · exact absurd isMarker (noFence line inFence)
        · exact .inl ⟨line, inBody, isMarker⟩
  · rintro (⟨line, inBody, isMarker⟩ | ⟨line, inToml, isMarker⟩)
    · exact ⟨line, by simp [inBody], isMarker⟩
    · exact ⟨line, by simp [inToml], isMarker⟩

/-! ### Convergence -/

section Convergence

variable {Time : Type} (calendar : Calendar Time) (crate : TomlCrate) (yaml : YamlCrate Time)
  (validateAgeArmor : List Char → Except String Unit) (supply : Supply Time)

def heldPage (content : List Char) : Option (PageMeta Time TomlValue × List Char) :=
  if "+++".toList.isPrefixOf content then
    match splitFenced content "+++".toList with
    | .ok (toml, body) =>
      (crate.parse toml).bind fun table =>
        match metaFromTable calendar table with
        | .ok (id, withId) => some (withId (id.getD supply.newId), body)
        | .error _ => none
    | .error _ => none
  else if "---".toList.isPrefixOf content then
    match yaml.parseFrontmatter content with
    | .ok (page, body) => some (page, body)
    | .error _ =>
      match splitFenced content "---".toList with
      | .ok (text, body) =>
        (yaml.loose text).map fun loose =>
          (loose.toPageMeta (loose.id.getD supply.newId), body)
      | .error _ => none
  else none

/-- No extra field takes the place of a system field, and there are no conflict markers. -/
structure SettlesPage (page : PageMeta Time TomlValue) (body : List Char) : Prop where
  created : ∀ instant ∈ page.createdAt, Printable calendar instant
  updated : ∀ instant ∈ page.updatedAt, Printable calendar instant
  unbroken : ∀ text ∈ pageTexts page, ¬Breaks text
  apart : ∀ key ∈ page.extra.keys, key ∉ systemKeys
  unmarked : ¬Conflicted page body

/-- `SettlesPage`, but for conflict markers. -/
structure Lasts (page : PageMeta Time TomlValue) : Prop where
  created : ∀ instant ∈ page.createdAt, Printable calendar instant
  updated : ∀ instant ∈ page.updatedAt, Printable calendar instant
  unbroken : ∀ text ∈ pageTexts page, ¬Breaks text
  apart : ∀ key ∈ page.extra.keys, key ∉ systemKeys

def Converges (again : Supply Time) (repaired : Repaired Time) : Prop :=
  ∃ content, writePageContent calendar crate repaired.page repaired.body = some content ∧
    let next := parseOrRepair calendar crate yaml validateAgeArmor again content
    SamePage next.page repaired.page ∧ next.body = repaired.body ∧ next.rewrote = false ∧
      next.warning = none

variable {calendar crate yaml validateAgeArmor supply}

theorem ensurePopulatedMeta_of_populated {now : Time} {page : PageMeta Time TomlValue}
    (created : page.createdAt.isSome = true) (updated : page.updatedAt.isSome = true) :
    ensurePopulatedMeta now page = (page, false) := by
  have ⟨createdAt, isCreated⟩ := isSome_iff_exists.1 created
  have ⟨updatedAt, isUpdated⟩ := isSome_iff_exists.1 updated
  unfold ensurePopulatedMeta
  cases page
  simp only at isCreated isUpdated
  simp [isCreated, isUpdated]

theorem populated_isSome (now : Time) (page : PageMeta Time TomlValue) :
    (ensurePopulatedMeta now page).1.createdAt.isSome = true ∧
      (ensurePopulatedMeta now page).1.updatedAt.isSome = true := by
  unfold ensurePopulatedMeta
  cases page.createdAt with
  | none | some => cases page.updatedAt <;> exact ⟨rfl, rfl⟩

inductive Mends (validateAgeArmor : List Char → Except String Unit) (supply : Supply Time)
    (content : List Char) : Option (PageMeta Time TomlValue × List Char) → Repaired Time → Prop
  | held {page : PageMeta Time TomlValue} {body : List Char} {repaired : Repaired Time}
      (isPage : repaired.page = (ensurePopulatedMeta supply.now page).1)
      (isBody : repaired.body = body)
      (armored : page.encryption = none ∨ validateAgeArmor body = .ok ()) :
      Mends validateAgeArmor supply content (some (page, body)) repaired
  | fresh {repaired : Repaired Time} (isPage : repaired.page = supply.newPage)
      (isBody : repaired.body = content) : Mends validateAgeArmor supply content none repaired

variable {content : List Char}

theorem mends_inner
    (rewrote : (parseOrRepairInner calendar crate yaml validateAgeArmor supply content).rewrote =
      true) :
    Mends validateAgeArmor supply content (heldPage calendar crate yaml supply content)
      (parseOrRepairInner calendar crate yaml validateAgeArmor supply content) := by
  unfold parseOrRepairInner at rewrote ⊢
  unfold heldPage
  by_cases isToml : "+++".toList.isPrefixOf content = true
  · rw [if_pos isToml] at rewrote ⊢
    rw [if_pos isToml]
    cases splits : splitFenced content "+++".toList with
    | error failure => exact .fresh rfl rfl
    | ok parts =>
      have ⟨toml, body⟩ := parts
      rw [splits] at rewrote
      simp only [repairToml] at rewrote ⊢
      cases parses : crate.parse toml with
      | none => rw [parses] at rewrote; cases rewrote
      | some table =>
        rw [parses] at rewrote
        simp only [bind_some] at rewrote ⊢
        cases reads : metaFromTable calendar table with
        | error failure => rw [reads] at rewrote; cases rewrote
        | ok read =>
          have ⟨id, withId⟩ := read
          rw [reads] at rewrote
          simp only at rewrote ⊢
          cases isValid : validateEncryptedBody validateAgeArmor (withId (id.getD supply.newId))
              body with
          | error failure => rw [isValid] at rewrote; cases rewrote
          | ok valid => exact .held rfl rfl (validateEncryptedBody_ok_iff.1 isValid)
  · rw [if_neg isToml] at rewrote ⊢
    rw [if_neg isToml]
    by_cases isYaml : "---".toList.isPrefixOf content = true
    · rw [if_pos isYaml] at rewrote ⊢
      rw [if_pos isYaml]
      unfold YamlCrate.parseOrRepair at rewrote ⊢
      cases reads : yaml.parseFrontmatter content with
      | ok parts =>
        have ⟨page, body⟩ := parts
        have plain : page.encryption = none := by
          obtain ⟨strict, rfl⟩ := yaml.page_of_parseFrontmatter reads
          rfl
        exact .held rfl rfl (.inl plain)
      | error failure =>
        rw [reads] at rewrote
        simp only at rewrote ⊢
        cases splits : splitFenced content "---".toList with
        | error failure => exact .fresh rfl rfl
        | ok parts =>
          have ⟨text, body⟩ := parts
          rw [splits] at rewrote
          simp only at rewrote ⊢
          cases isLoose : yaml.loose text with
          | none => rw [isLoose] at rewrote; cases rewrote
          | some loose => exact .held rfl rfl (.inl rfl)
    · rw [if_neg isYaml] at rewrote ⊢
      rw [if_neg isYaml]
      exact .fresh rfl rfl

variable
  (rewrote : (parseOrRepair calendar crate yaml validateAgeArmor supply content).rewrote = true)

include rewrote

theorem parseOrRepair_of_rewrote :
    hasConflictMarkers (String.ofList content) = false ∧
      parseOrRepair calendar crate yaml validateAgeArmor supply content =
        parseOrRepairInner calendar crate yaml validateAgeArmor supply content := by
  have unmarked : ¬hasConflictMarkers (String.ofList content) = true := by
    intro marked
    rw [rewrote_of_markers marked] at rewrote
    cases rewrote
  refine ⟨Bool.eq_false_iff.2 unmarked, ?_⟩
  unfold parseOrRepair
  rw [if_neg unmarked]

theorem mends_of_rewrote :
    Mends validateAgeArmor supply content (heldPage calendar crate yaml supply content)
      (parseOrRepair calendar crate yaml validateAgeArmor supply content) := by
  have isInner := (parseOrRepair_of_rewrote rewrote).2
  rw [isInner] at rewrote ⊢
  exact mends_inner rewrote

omit rewrote

theorem parseOrRepair_inner (content : List Char) :
    (parseOrRepair calendar crate yaml validateAgeArmor supply content).page
        = (parseOrRepairInner calendar crate yaml validateAgeArmor supply content).page
      ∧ (parseOrRepair calendar crate yaml validateAgeArmor supply content).body
        = (parseOrRepairInner calendar crate yaml validateAgeArmor supply content).body
      ∧ ((parseOrRepair calendar crate yaml validateAgeArmor supply content).warning = none →
        (parseOrRepairInner calendar crate yaml validateAgeArmor supply content).warning = none) := by
  unfold parseOrRepair
  dsimp only
  split_ifs
  · exact ⟨rfl, rfl, nofun⟩
  · exact ⟨rfl, rfl, id⟩

/-- A page with a title was read, and so was one without a warning. -/
theorem parts_of_read {toml split : List Char} (starts : "+++".toList.isPrefixOf content = true)
    (splits : splitFenced content "+++".toList = .ok (toml, split))
    (read : (parseOrRepair calendar crate yaml validateAgeArmor supply content).warning = none
      ∨ (parseOrRepair calendar crate yaml validateAgeArmor supply content).page.title ≠ none) :
    ∃ table id withId, crate.parse toml = some table
      ∧ metaFromTable calendar table = .ok (id, withId)
      ∧ (parseOrRepair calendar crate yaml validateAgeArmor supply content).page.extra
        = (withId (id.getD supply.newId)).extra
      ∧ (parseOrRepair calendar crate yaml validateAgeArmor supply content).body = split := by
  have inner := @parseOrRepair_inner _ calendar crate yaml validateAgeArmor supply content
  have isInner : parseOrRepairInner calendar crate yaml validateAgeArmor supply content
      = repairToml calendar crate validateAgeArmor supply toml split := by
    unfold parseOrRepairInner
    rw [if_pos starts, splits]
  have readInner := read.imp_left inner.2.2
  rw [inner.1, isInner] at readInner ⊢
  rw [inner.2.1, isInner]
  unfold repairToml at readInner ⊢
  cases parses : crate.parse toml with
  | none =>
    rw [parses] at readInner
    exact readInner.elim nofun (absurd rfl)
  | some table =>
    rw [parses] at readInner
    dsimp only at readInner ⊢
    cases reads : metaFromTable calendar table with
    | error failure =>
      rw [reads] at readInner
      exact readInner.elim nofun (absurd rfl)
    | ok read =>
      refine ⟨table, read.1, read.2, rfl, reads, ?_⟩
      dsimp only
      split <;> exact ⟨rfl, rfl⟩

section Page

variable {page : PageMeta Time TomlValue} {body : List Char} {again : Supply Time}
  (created : ∀ instant ∈ page.createdAt, Dated calendar instant)
  (updated : ∀ instant ∈ page.updatedAt, Dated calendar instant)
  (rewritable : ∀ system, systemTable calendar page = some system → Rewritable crate page system)

include created updated rewritable

theorem lasts_of_read {content : List Char}
    (read : (parseOrRepair calendar crate yaml validateAgeArmor again content).warning = none
      ∨ page.title ≠ none)
    (isContent : writePageContent calendar crate page body = some content)
    (same : SamePage (parseOrRepair calendar crate yaml validateAgeArmor again content).page page) :
    Lasts calendar page
      ∧ (parseOrRepair calendar crate yaml validateAgeArmor again content).body = body
      ∧ "+++".toList.isPrefixOf content = true
      ∧ ∃ toml split table read, splitFenced content "+++".toList = .ok (toml, split)
        ∧ crate.parse toml = some table ∧ metaFromTable calendar table = .ok read := by
  obtain ⟨system, written, -⟩ := map_eq_some_iff.1 isContent
  have isRewritable := rewritable system written
  have stamps := systemTable_isSome_iff.1 ⟨system, written⟩
  have isTitle := congrArg PageMeta.title same.system
  dsimp only at isTitle
  rw [← isTitle] at read
  have ⟨starts, cut, whole⟩ := splitFenced_written isRewritable.legible written isContent
  have unbroken : ¬fenceLine <:+: tomlText crate page system := by
    intro broken
    have ⟨before, longer, splits, notRead⟩ := cut broken
    obtain ⟨table, _, _, parses, -⟩ := parts_of_read starts splits read
    rw [notRead] at parses
    cases parses
  have ⟨table, id, withId, parses, reads, isExtra, isBody⟩ :=
    parts_of_read starts (whole unbroken) read
  have apart : ∀ key ∈ page.extra.keys, key ∉ systemKeys := by
    intro key member isSystem
    have related := same.extra key
    rw [isExtra, (extra_of_metaFromTable reads (id.getD again.newId)).1.without key,
      if_pos (mem_reverse.2 isSystem)] at related
    have absent : page.extra.value key = none := by
      generalize page.extra.value key = value at related ⊢
      cases related
      rfl
    exact ExtraMap.value_eq_none_iff.1 absent member
  refine ⟨⟨(stampValue_isSome_iff created).1 stamps.1, (stampValue_isSome_iff updated).1 stamps.2,
    ?_, apart⟩, isBody, starts, _, _, table, _, whole unbroken, parses, reads⟩
  intro text member breaks
  exact unbroken ((fence_tomlText_iff written apart isRewritable.toUnderstood).2
    ⟨text, member, breaks⟩)

theorem exists_of_lasts (lasts : Lasts calendar page) :
    ∃ content toml table extra, writePageContent calendar crate page body = some content
      ∧ parseOrRepairInner calendar crate yaml validateAgeArmor again content
        = repairToml calendar crate validateAgeArmor again toml body
      ∧ crate.parse toml = some table
      ∧ metaFromTable calendar table = .ok (some page.id, fun id => { page with id, extra })
      ∧ ∀ key, Option.Rel TomlValue.Same (extra.value key) (page.extra.value key) := by
  have ⟨system, written⟩ := systemTable_isSome_iff.2
    ⟨(stampValue_isSome_iff created).2 lasts.created,
      (stampValue_isSome_iff updated).2 lasts.updated⟩
  have isRewritable := rewritable system written
  obtain ⟨content, isContent⟩ : ∃ content,
      writePageContent calendar crate page body = some content :=
    ⟨_, map_eq_some_iff.2 ⟨system, written, rfl⟩⟩
  have unbroken : ¬fenceLine <:+: tomlText crate page system := by
    rw [fence_tomlText_iff written lasts.apart isRewritable.toUnderstood]
    exact fun ⟨text, member, breaks⟩ => lasts.unbroken text member breaks
  obtain ⟨starts, -, whole⟩ := splitFenced_written isRewritable.legible written isContent
  have ⟨table, parses, values⟩ := isRewritable.reads
  have ⟨extra, reads, sameExtra⟩ :=
    metaFromTable_of_joined written lasts.apart created updated values
  refine ⟨content, _, table, extra, isContent, ?_, parses, reads, sameExtra⟩
  unfold parseOrRepairInner
  rw [if_pos starts, whole unbroken]

theorem converges_iff {repaired : Repaired Time} (isPage : repaired.page = page)
    (isBody : repaired.body = body) (hasCreated : page.createdAt.isSome = true)
    (hasUpdated : page.updatedAt.isSome = true)
    (armored : page.encryption = none ∨ validateAgeArmor body = .ok ()) :
    Converges calendar crate yaml validateAgeArmor again repaired ↔ SettlesPage calendar page body := by
  unfold Converges
  rw [isPage, isBody]
  constructor
  · rintro ⟨content, isContent, same, -, -, noWarning⟩
    obtain ⟨lasts, -⟩ := lasts_of_read created updated rewritable (.inl noWarning) isContent same
    obtain ⟨system, written, -⟩ := map_eq_some_iff.1 isContent
    refine ⟨lasts.created, lasts.updated, lasts.unbroken, lasts.apart, ?_⟩
    rw [← conflicted_written (rewritable system written) written isContent]
    intro marked
    unfold parseOrRepair at noWarning
    rw [if_pos marked] at noWarning
    cases noWarning
  · intro settles
    have ⟨content, toml, table, extra, isContent, isInner, parses, reads, sameExtra⟩ :=
      @exists_of_lasts _ _ _ yaml validateAgeArmor _ body again created updated rewritable
        ⟨settles.created, settles.updated, settles.unbroken, settles.apart⟩
    obtain ⟨system, written, -⟩ := map_eq_some_iff.1 isContent
    have unmarked : ¬hasConflictMarkers (String.ofList content) = true := by
      rw [conflicted_written (rewritable system written) written isContent]
      exact settles.unmarked
    have valid : validateEncryptedBody validateAgeArmor { page with extra } body = .ok () :=
      validateEncryptedBody_ok_iff.2 armored
    have populated : ensurePopulatedMeta again.now { page with extra } =
        ({ page with extra }, false) := ensurePopulatedMeta_of_populated hasCreated hasUpdated
    have isNext : parseOrRepair calendar crate yaml validateAgeArmor again content =
        ⟨{ page with extra }, body, false, none⟩ := by
      unfold parseOrRepair
      rw [if_neg unmarked, isInner]
      simp only [repairToml, parses, reads, getD_some, valid, populated, isNone_some, Bool.or_false]
    refine ⟨content, isContent, ?_⟩
    rw [isNext]
    exact ⟨⟨rfl, sameExtra⟩, rfl, rfl, rfl⟩

end Page

variable (calendar crate yaml supply)

/-- With the timestamps filled in, the page can be written once and for all. -/
def SettlesFile (content : List Char) : Prop :=
  (heldPage calendar crate yaml supply content = none → Printable calendar supply.now) ∧
    ∀ page body, heldPage calendar crate yaml supply content = some (page, body) →
      SettlesPage calendar (ensurePopulatedMeta supply.now page).1 body

variable {calendar crate yaml supply}

theorem settles_newPage (unmarked : hasConflictMarkers (String.ofList content) = false) :
    SettlesPage calendar supply.newPage content ↔ Printable calendar supply.now := by
  constructor
  · exact fun settles => settles.created supply.now rfl
  · intro printable
    have stamps : ∀ instant ∈ some supply.now, Printable calendar instant := by
      intro instant isNow
      obtain rfl := some.inj isNow
      exact printable
    refine ⟨stamps, stamps, fun _ member => (nomatch member), fun _ member => (nomatch member), ?_⟩
    intro conflicted
    rw [Bool.eq_false_iff] at unmarked
    apply unmarked
    rw [hasConflictMarkers_iff]
    intro kind
    rcases conflicted kind with inBody | ⟨text, member, -⟩
    · exact inBody
    · exact nomatch member

/-- A file with a warning or conflict markers is left, and a file to be written again is read as
written exactly when its frontmatter settles. -/
theorem repair_settles_iff (content : List Char) (again : Supply Time) (created : ∀ instant ∈
      (parseOrRepair calendar crate yaml validateAgeArmor supply content).page.createdAt,
      Dated calendar instant)
    (updated : ∀ instant ∈
      (parseOrRepair calendar crate yaml validateAgeArmor supply content).page.updatedAt,
      Dated calendar instant)
    (rewritable : ∀ system, systemTable calendar
        (parseOrRepair calendar crate yaml validateAgeArmor supply content).page = some system →
      Rewritable crate (parseOrRepair calendar crate yaml validateAgeArmor supply content).page
        system) :
    let repaired := parseOrRepair calendar crate yaml validateAgeArmor supply content
    (repaired.warning.isSome = true ∨ hasConflictMarkers (String.ofList content) = true →
      repaired.rewrote = false) ∧
    repaired.body <:+ content ∧
    (repaired.rewrote = true → (Converges calendar crate yaml validateAgeArmor again repaired ↔
        SettlesFile calendar crate yaml supply content)) := by
  have sound := @parseOrRepair_sound _ calendar crate yaml validateAgeArmor supply content
  refine ⟨?_, sound.kept, fun rewrote => ?_⟩
  · rintro (warned | marked)
    · exact sound.left warned
    · exact rewrote_of_markers marked
  · have mends := mends_of_rewrote rewrote
    have unmarked := (parseOrRepair_of_rewrote rewrote).1
    unfold SettlesFile
    cases isHeld : heldPage calendar crate yaml supply content with
    | none =>
      rw [isHeld] at mends
      cases mends with
      | fresh isPage isBody =>
        rw [isPage] at created updated rewritable
        rw [converges_iff created updated rewritable isPage isBody rfl rfl (.inl rfl),
          settles_newPage unmarked]
        exact ⟨fun printable => ⟨fun _ => printable, fun _ _ found => (nomatch found)⟩,
          fun settles => settles.1 rfl⟩
    | some held =>
      have ⟨page, body⟩ := held
      rw [isHeld] at mends
      cases mends with
      | held isPage isBody armored =>
        rw [isPage] at created updated rewritable
        have ⟨hasCreated, hasUpdated⟩ := populated_isSome supply.now page
        rw [converges_iff created updated rewritable isPage isBody hasCreated hasUpdated armored]
        constructor
        · intro settles
          refine ⟨fun none => (nomatch none), fun other text isOther => ?_⟩
          obtain ⟨rfl, rfl⟩ := Prod.mk.inj (some.inj isOther)
          exact settles
        · exact fun settles => settles.2 page body rfl

end Convergence

/-! ### Two files -/

def sampleSupply : Supply Int := ⟨samplePage.id, 2026⟩

def stampedSystem : TomlTable where
  rows := [("id", .string "00000000-0000-0000-0000-000000000000"),
    ("created_at", .datetime "2026-01-01T00:00:00Z"),
    ("updated_at", .datetime "2026-01-01T00:00:00Z")]
  distinct := by decide

def protectedTable : TomlTable where
  rows := stampedSystem.rows ++ [("readonly", .string "no")]
  distinct := by decide

def stampedCrate : TomlCrate where
  print := samplePrint
  display := sampleText
  parse text :=
    if text = samplePrint stampedSystem then some stampedSystem
    else if text = samplePrint protectedTable then some protectedTable
    else none

def protectedYaml : YamlPageMeta Uuid Int where
  id := samplePage.id
  title := none
  tags := []
  aliases := []
  kind := none
  project := none
  createdAt := none
  updatedAt := none
  extra := [("readonly", .string "no")]
  others := by decide

def protectedYamlText : List Char :=
  "id: 00000000-0000-0000-0000-000000000000\nreadonly: \"no\"\n".toList

def protectedYamlCrate : YamlCrate Int where
  strict text := if text = protectedYamlText then some protectedYaml else none
  loose _ := none

def repairSample : List Char → Repaired Int :=
  parseOrRepair sampleCalendar stampedCrate protectedYamlCrate (fun _ => .ok ()) sampleSupply

theorem stampedSystem_written :
    systemTable sampleCalendar sampleSupply.newPage = some stampedSystem := by
  rfl

theorem stamped_text :
    tomlText stampedCrate sampleSupply.newPage stampedSystem = samplePrint stampedSystem := by
  decide

theorem rewritable_newPage : Rewritable stampedCrate sampleSupply.newPage stampedSystem where
  systemLines := ⟨(samplePrint stampedSystem).dropLast, by decide⟩
  extraLines := .inl rfl
  extraBegins := by decide
  systemFence := by decide +kernel
  extraFence := by decide
  encryptionFence := fun encryption found => nomatch found
  reads := by
    refine ⟨stampedSystem, ?_, reads_of_rows rfl⟩
    rw [stamped_text]
    simp [stampedCrate]
  cut := by
    intro before after isText
    have unbroken : ¬fenceLine <:+: samplePrint stampedSystem := by decide +kernel
    rw [stamped_text] at isText
    exact absurd ⟨before, after, by rw [isText, append_assoc]⟩ unbroken
  marked := by
    intro kind
    rw [stamped_text]
    cases kind <;> decide +kernel

/-- A file without frontmatter is given one, and then left. -/
theorem repair_settles_iff_plain : (repairSample "text".toList).rewrote = true ∧
      Converges sampleCalendar stampedCrate protectedYamlCrate (fun _ => .ok ()) sampleSupply
        (repairSample "text".toList) := by
  have isNew : repairSample "text".toList = ⟨sampleSupply.newPage, "text".toList, true, none⟩ := by
    rfl
  have isPage : (repairSample "text".toList).page = sampleSupply.newPage := by rw [isNew]
  have dated : ∀ instant ∈ some sampleSupply.now, Dated sampleCalendar instant := by
    intro instant isNow
    obtain rfl := some.inj isNow
    exact sample_dated
  have rewrote : (repairSample "text".toList).rewrote = true := by rw [isNew]
  refine ⟨rewrote, ((repair_settles_iff "text".toList sampleSupply ?_ ?_ ?_).2.2 rewrote).2 ?_⟩
  · show ∀ instant ∈ (repairSample "text".toList).page.createdAt, _
    rw [isPage]
    exact dated
  · show ∀ instant ∈ (repairSample "text".toList).page.updatedAt, _
    rw [isPage]
    exact dated
  · show ∀ system, systemTable sampleCalendar (repairSample "text".toList).page = some system →
      Rewritable stampedCrate (repairSample "text".toList).page system
    rw [isPage]
    intro system written
    obtain rfl := some.inj (stampedSystem_written.symm.trans written)
    exact rewritable_newPage
  · exact ⟨fun _ => ⟨by decide, by decide⟩, fun _ _ found => (nomatch found)⟩

def protectedText : List Char :=
  "---\nid: 00000000-0000-0000-0000-000000000000\nreadonly: \"no\"\n---\ntext".toList

/-- A legacy page whose `readonly` is no boolean is written as a page that is not read again. -/
theorem legacy_readonly_diverges : (repairSample protectedText).rewrote = true ∧
      ¬Converges sampleCalendar stampedCrate protectedYamlCrate (fun _ => .ok ()) sampleSupply
        (repairSample protectedText) := by
  have warns : (writePageContent sampleCalendar stampedCrate (repairSample protectedText).page
      (repairSample protectedText).body).map (fun content => (repairSample content).warning)
        = some (some ("frontmatter TOML is invalid (invalid frontmatter field: readonly must be a "
            ++ "boolean); indexing with default metadata (file not modified)")) := by
    decide +kernel
  refine ⟨by decide, ?_⟩
  rintro ⟨content, isContent, -, -, -, noWarning⟩
  rw [isContent, map_some, some.injEq] at warns
  have isNone : (repairSample content).warning = none := noWarning
  rw [isNone] at warns
  cases warns

end Clepsydra.Vault
