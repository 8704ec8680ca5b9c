import Clepsydra.Library.Table
import Clepsydra.Vault.Canonical

/-!
Owns: the frontmatter of a page as a value: the kinds of pages, the system fields, and the
extra fields in the order they were first seen; the values of TOML.
-/

namespace Clepsydra.Vault

open Library List

/-! ### Kinds -/

inductive Kind where
  | note
  | project
  | journal
  | todo
  | quote
  | book
  | capture
  | code
  | person
  | task
  | cycle
  | recipe
  | meeting
  | archive
  | aiConversation
  | aiJournal
deriving DecidableEq

def Kind.asStr : Kind → String
  | .note => "NOTE"
  | .project => "PROJECT"
  | .journal => "JOURNAL"
  | .todo => "TODO"
  | .quote => "QUOTE"
  | .book => "BOOK"
  | .capture => "CAPTURE"
  | .code => "CODE"
  | .person => "PERSON"
  | .task => "TASK"
  | .cycle => "CYCLE"
  | .recipe => "RECIPE"
  | .meeting => "MEETING"
  | .archive => "ARCHIVE"
  | .aiConversation => "AI_CONVERSATION"
  | .aiJournal => "AI_JOURNAL"

/-- `str::to_ascii_uppercase`. -/
def asciiUppercase (text : String) : String := String.ofList (text.toList.map Char.toUpper)

/-- `Kind::from_token`; the retired one-on-one kind reads as a meeting. -/
def Kind.fromToken (text : String) : Option Kind :=
  match asciiUppercase (trim text) with
  | "NOTE" => some .note
  | "PROJECT" => some .project
  | "JOURNAL" => some .journal
  | "TODO" => some .todo
  | "QUOTE" => some .quote
  | "BOOK" => some .book
  | "CAPTURE" => some .capture
  | "CODE" => some .code
  | "PERSON" => some .person
  | "TASK" => some .task
  | "CYCLE" => some .cycle
  | "RECIPE" => some .recipe
  | "MEETING" | "ONE_ON_ONE" | "ONE-ON-ONE" | "ONEONONE" | "1:1" | "1-1" | "1ON1" => some .meeting
  | "ARCHIVE" => some .archive
  | "AI_CONVERSATION" => some .aiConversation
  | "AI_JOURNAL" => some .aiJournal
  | _ => none

theorem fromToken_asStr (kind : Kind) : Kind.fromToken kind.asStr = some kind := by
  cases kind <;> decide

/-! ### Fields -/

structure EncryptionMeta where
  keyId : String
  hasKey : trim keyId ≠ ""
deriving DecidableEq

abbrev ExtraMap (Value : Type) := Table String (String × Value) Prod.fst

namespace ExtraMap

variable {Value : Type}

def value (extra : ExtraMap Value) (key : String) : Option Value := (extra.get key).map Prod.snd

def keys (extra : ExtraMap Value) : List String := extra.rows.map Prod.fst

/-- `insert`: a key that is there keeps its place. -/
def insert (extra : ExtraMap Value) (key : String) (value : Value) : ExtraMap Value :=
  (extra.modify key (fun row => (row.1, value)) fun _ => rfl).insertOrIgnore (key, value)

theorem value_insert (extra : ExtraMap Value) (key other : String) (value : Value) :
    (extra.insert key value).value other = if other = key then some value else extra.value other := by
  unfold insert ExtraMap.value
  rw [Table.get_insertOrIgnore, Table.get_modify]
  by_cases same : other = key
  · rw [if_pos same, if_pos same, same]
    cases extra.get key with
    | none => simp
    | some row => simp
  · rw [if_neg same, if_neg same, if_neg fun both => same both.1.symm]

theorem value_foldl_insert {key : String} {value : Value} {entries : List (String × Value)}
    {start : ExtraMap Value} (agree : ∀ entry ∈ entries, entry.1 = key → entry.2 = value)
    (present : key ∈ entries.map Prod.fst ∨ start.value key = some value) :
    ExtraMap.value (entries.foldl (fun extra entry => ExtraMap.insert extra entry.1 entry.2) start) key
      = some value := by
  induction entries generalizing start with
  | nil => exact present.resolve_left not_mem_nil
  | cons first rest ih =>
    rw [forall_mem_cons] at agree
    rw [foldl_cons]
    apply ih agree.2
    rw [value_insert]
    by_cases same : key = first.1
    · rw [if_pos same, agree.1 same.symm]
      exact Or.inr rfl
    · rw [if_neg same]
      rw [map_cons, mem_cons] at present
      exact present.imp_left fun among => among.resolve_left same

theorem value_eq_none_iff {extra : ExtraMap Value} {key : String} :
    extra.value key = none ↔ key ∉ extra.keys := by
  rw [ExtraMap.value, Option.map_eq_none_iff, Table.get_eq_none_iff]
  rfl

/-- `insert` where there is a value to insert. -/
def insertSome (extra : ExtraMap Value) (key : String) : Option Value → ExtraMap Value
  | some value => extra.insert key value
  | none => extra

theorem value_insertSome (extra : ExtraMap Value) (key other : String) (value : Option Value) :
    (extra.insertSome key value).value other =
      if other = key then value.or (extra.value other) else extra.value other := by
  cases value with
  | none => simp [insertSome]
  | some value => simp [insertSome, value_insert]

theorem value_erase (extra : ExtraMap Value) (key other : String) :
    ExtraMap.value (extra.erase key) other = if other = key then none else extra.value other := by
  rw [ExtraMap.value, Table.get_erase]
  split_ifs <;> rfl

theorem exists_row_of_value {extra : ExtraMap Value} {key : String} {value : Value}
    (found : extra.value key = some value) : (key, value) ∈ extra.rows := by
  obtain ⟨row, atKey, rfl⟩ := Option.map_eq_some_iff.1 found
  have same : row.1 = key := Table.key_of_get atKey
  rw [← same]
  exact Table.mem_of_get atKey

theorem value_of_row {extra : ExtraMap Value} {row : String × Value} (member : row ∈ extra.rows) :
    extra.value row.1 = some row.2 := by
  rw [ExtraMap.value, Table.get_of_mem member]
  rfl

@[simp] theorem value_empty (key : String) :
    ExtraMap.value (Table.empty : ExtraMap Value) key = none := rfl

end ExtraMap

/-- `toml::Value`. A float is its bits, a date and time its text. -/
inductive TomlValue where
  | string (text : String)
  | integer (number : Int)
  | float (bits : UInt64)
  | boolean (flag : Bool)
  | datetime (text : String)
  | array (items : List TomlValue)
  | table (entries : List (String × TomlValue))
deriving Inhabited

namespace TomlValue

def asStr : TomlValue → Option String
  | string text => some text
  | _ => none

def field (entries : List (String × TomlValue)) (key : String) : Option TomlValue :=
  (entries.find? fun entry => entry.1 = key).map Prod.snd

end TomlValue

/-- The frontmatter of a page. A kind or a protection that is not declared is `none`. -/
structure PageMeta (Time Value : Type) where
  id : Uuid
  title : Option String
  tags : List String
  aliases : List String
  kind : Option Kind
  project : Option String
  createdAt : Option Time
  updatedAt : Option Time
  encryption : Option EncryptionMeta
  readonly : Option Bool
  extra : ExtraMap Value

end Clepsydra.Vault
