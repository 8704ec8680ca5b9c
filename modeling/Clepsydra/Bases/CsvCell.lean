import Clepsydra.Bases.PropertyValue

/-!
Owns: the text of a value in a CSV cell, and the value that a cell is read as.

Proves: exactly which stored values are read back. Nothing escapes a semicolon in a list.
-/

namespace Clepsydra.Bases.Csv

open Library Library.Fallible Vault List

/-! ### Texts of values -/

/-- The texts of doubles, objects and dates as the crates have them. -/
structure Formats where
  parseFloat : String → Option UInt64
  printFloat : FiniteDouble → String
  printObject : List (String × JsonValue) → String
  parseDatetime : String → Option Datetime
  isDate : String → Bool
  isWebUrl : String → Bool

def digitsValue (digits : List Char) : Option Nat :=
  if digits ≠ [] ∧ digits.all Char.isDigit then some (Nat.ofDigitChars 10 digits 0) else none

def signedValue : List Char → Option Int
  | '-' :: digits => (digitsValue digits).map fun number : Nat => -(number : Int)
  | '+' :: digits => (digitsValue digits).map Int.ofNat
  | digits => (digitsValue digits).map Int.ofNat

/-- `str::parse::<i64>`. -/
def parseI64 (text : String) : Option Int :=
  (signedValue text.toList).filter fun number => -2 ^ 63 ≤ number ∧ number < 2 ^ 63

def intText (number : Int) : String :=
  String.ofList (if number < 0 then '-' :: Nat.toDigits 10 number.natAbs
    else Nat.toDigits 10 number.natAbs)

/-- `Number::from`. -/
def numberOfI64 (number : Int) : SerdeNumber :=
  if 0 ≤ number then .posInt (UInt64.ofNat number.toNat) else .negInt (Int64.ofInt number)

/-- `Number::from_f64`. -/
def numberOfF64 (bits : UInt64) : Option SerdeNumber :=
  if finite : bits.toNat / 2 ^ 52 % 2 ^ 11 ≠ 2 ^ 11 - 1 then some (.float ⟨bits, finite⟩) else none

/-- `checkbox`. -/
def checkbox (value : String) : Option Bool :=
  let lower := asciiLowercase value
  if lower = "true" ∨ lower = "yes" then some true
  else if lower = "false" ∨ lower = "no" then some false
  else none

def items (raw : String) : List String :=
  ((raw.toList.splitOn ';').map fun item => trim (String.ofList item)).filter (· ≠ "")

/-! ### Fields -/

def bareField (field : String) : String :=
  ((stripStart "prop." field).or (stripStart "sys." field)).getD field

def writableSystem (field : String) : Bool :=
  ["title", "kind", "project", "tags", "aliases"].contains field

def isSystemCell (field : String) : Bool :=
  (stripStart "prop." field).isNone && writableSystem (bareField field)

section Cells

variable (formats : Formats)

def numberText : SerdeNumber → String
  | .posInt number => intText number.toNat
  | .negInt number => intText number.toInt
  | .float double => formats.printFloat double

mutual

def csvValue : JsonValue → String
  | .null => ""
  | .string text => text
  | .array items => ";".intercalate (csvItems items)
  | .bool flag => if flag then "true" else "false"
  | .number number => numberText formats number
  | .object entries => formats.printObject entries

def csvItems : List JsonValue → List String
  | [] => []
  | item :: rest => csvValue item :: csvItems rest

end

def cellNumber (raw : String) : Option SerdeNumber :=
  match parseI64 raw with
  | some integer => some (numberOfI64 integer)
  | none => (formats.parseFloat raw).bind numberOfF64

def cellValue (bare raw : String) : PropertyType → Except String JsonValue
  | .bool => okOr (bare ++ " must be a boolean (true/false or yes/no)")
      ((checkbox (trim raw)).map .bool)
  | .number => okOr (bare ++ " must be a finite number")
      ((cellNumber formats (trim raw)).map .number)
  | .multiSelect | .relation => .ok (.array ((items raw).map .string))
  | _ => .ok (.string raw)

def typedCell (raw field : String) (base : BaseDefinition) : Except String JsonValue :=
  let bare := bareField field
  if trim raw = "" then .ok .null
  else if isSystemCell field then
    .ok (if ["tags", "aliases"].contains bare then .array ((items raw).map .string)
      else .string raw)
  else do
    let definition ← okOr ("no declared property `" ++ bare ++ "`") (base.property bare)
    let value ← cellValue formats bare raw definition.propertyType
    let _ ← (coercePropertyValue formats.parseDatetime bare value definition).mapError
      PropertyValueError.toText
    pure value

end Cells

/-! ### Items -/

def IsTrimmed (text : String) : Prop := trim text = text ∧ text ≠ ""

variable {text : String}

theorem trim_ne_empty_of_mem {character : Char} (among : character ∈ text.toList)
    (solid : isWhitespace character = false) : trim text ≠ "" := by
  intro blank
  have kept := Trim.mem_trim_of_solid among solid
  rw [← toList_trim, blank] at kept
  exact absurd kept not_mem_nil

theorem IsTrimmed.exists_solid (trimmed : IsTrimmed text) :
    ∃ first rest, text.toList = first :: rest ∧ isWhitespace first = false := by
  have tight := (trim_eq_self_iff text).1 trimmed.1
  cases isText : text.toList with
  | nil => exact absurd (String.toList_inj.1 isText) trimmed.2
  | cons first rest =>
    rw [isText] at tight
    exact ⟨first, rest, rfl, tight.1 first rfl⟩

theorem IsTrimmed.trim_ne_empty (trimmed : IsTrimmed text) : trim text ≠ "" := by
  rw [trimmed.1]
  exact trimmed.2

theorem mem_items_iff {raw : String} : text ∈ items raw ↔
      (∃ item ∈ raw.toList.splitOn ';', trim (String.ofList item) = text) ∧ text ≠ "" := by
  rw [items, mem_filter, mem_map, decide_eq_true_eq]

theorem semicolon_not_mem {raw : String} (among : text ∈ items raw) : ';' ∉ text.toList := by
  obtain ⟨⟨item, isItem, rfl⟩, _⟩ := mem_items_iff.1 among
  rw [toList_trim, String.toList_ofList]
  intro inside
  have ⟨before, after, split, _⟩ := @Trim.exists_of_trim _ isWhitespace item
  apply not_mem_of_mem_splitOn isItem
  rw [split]
  exact mem_append_right _ (mem_append_left _ inside)

variable {texts : List String}

theorem items_intercalate (some : texts ≠ []) (trimmed : ∀ text ∈ texts, IsTrimmed text)
    (apart : ∀ text ∈ texts, ';' ∉ text.toList) :
    items (";".intercalate texts) = texts := by
  have isSplit : (";".intercalate texts).toList.splitOn ';' = texts.map String.toList := by
    rw [String.toList_intercalate]
    apply splitOn_intercalate
    · intro item among
      obtain ⟨text, isText, rfl⟩ := mem_map.1 among
      exact apart text isText
    · exact fun none => some (map_eq_nil_iff.1 none)
  have isTexts : (texts.map String.toList).map (fun item => trim (String.ofList item)) = texts := by
    rw [map_map, ← map_id texts, map_map]
    apply map_congr_left
    intro text among
    show trim (String.ofList text.toList) = text
    rw [String.ofList_toList, (trimmed text among).1]
  rw [items, isSplit, isTexts, filter_eq_self]
  exact fun text among => decide_eq_true (trimmed text among).2

theorem items_intercalate_iff (some : texts ≠ []) (trimmed : ∀ text ∈ texts, IsTrimmed text) :
    items (";".intercalate texts) = texts ↔ ∀ text ∈ texts, ';' ∉ text.toList := by
  constructor
  · intro same text among
    rw [← same] at among
    exact semicolon_not_mem among
  · exact items_intercalate some trimmed

theorem trim_intercalate_ne_empty (some : texts ≠ []) (trimmed : ∀ text ∈ texts, IsTrimmed text) :
    trim (";".intercalate texts) ≠ "" := by
  cases texts with
  | nil => exact absurd rfl some
  | cons text rest =>
    have ⟨first, others, isText, solid⟩ := (trimmed text mem_cons_self).exists_solid
    apply trim_ne_empty_of_mem _ solid
    rw [String.toList_intercalate, map_cons, isText]
    cases rest with
    | nil => simp
    | cons next rest => simp

/-! ### Numbers -/

theorem isWhitespace_of_isDigit {character : Char} (digit : character.isDigit = true) :
    isWhitespace character = false := by
  have bounds : 48 ≤ character.toNat ∧ character.toNat ≤ 57 := Char.isDigit_iff_toNat.1 digit
  simp only [isWhitespace, Bool.or_eq_false_iff, Bool.and_eq_false_iff, decide_eq_false_iff_not,
    beq_eq_false_iff_ne]
  omega

theorem digitsValue_toDigits (number : Nat) :
    digitsValue (Nat.toDigits 10 number) = some number := by
  have some : Nat.toDigits 10 number ≠ [] := Nat.toDigits_ne_nil
  have digits : (Nat.toDigits 10 number).all Char.isDigit = true :=
    all_eq_true.2 fun _ among => Nat.isDigit_of_mem_toDigits (by decide) (by decide) among
  rw [digitsValue, if_pos ⟨some, digits⟩, Nat.ofDigitChars_ten_toDigits]

theorem signedValue_of_digits {first : Char} {rest : List Char} (digit : first.isDigit = true) :
    signedValue (first :: rest) = (digitsValue (first :: rest)).map Int.ofNat := by
  unfold signedValue
  split
  · rename_i same
    rw [(List.cons.inj same).1] at digit
    exact absurd digit (by decide)
  · rename_i same
    rw [(List.cons.inj same).1] at digit
    exact absurd digit (by decide)
  · rfl

theorem signedValue_intText (number : Int) : signedValue (intText number).toList = some number := by
  rw [intText, String.toList_ofList]
  split_ifs with negative
  · rw [signedValue, digitsValue_toDigits, Option.map_some]
    congr 1
    omega
  · have some : Nat.toDigits 10 number.natAbs ≠ [] := Nat.toDigits_ne_nil
    have ⟨first, rest, split⟩ := exists_cons_of_ne_nil some
    have digit : first.isDigit = true :=
      Nat.isDigit_of_mem_toDigits (by decide) (by decide) (split ▸ mem_cons_self)
    rw [split, signedValue_of_digits digit, ← split, digitsValue_toDigits, Option.map_some]
    congr 1
    show (number.natAbs : Int) = number
    omega

theorem parseI64_intText {number : Int} (low : -2 ^ 63 ≤ number) (high : number < 2 ^ 63) :
    parseI64 (intText number) = some number := by
  rw [parseI64, signedValue_intText, Option.filter_some, if_pos (by simpa using ⟨low, high⟩)]

theorem isTrimmed_of_solid (solid : ∀ character ∈ text.toList, isWhitespace character = false)
    (some : text.toList ≠ []) :
    IsTrimmed text := by
  constructor
  · rw [trim_eq_self_iff]
    exact ⟨fun first isFirst => solid first (mem_of_mem_head? isFirst),
      fun last isLast => solid last (mem_of_mem_getLast? isLast)⟩
  · intro none
    rw [none] at some
    exact some rfl

theorem isTrimmed_intText (number : Int) : IsTrimmed (intText number) := by
  have solid : ∀ character ∈ (intText number).toList, isWhitespace character = false := by
    intro character among
    rw [intText, String.toList_ofList] at among
    split_ifs at among
    · rcases mem_cons.1 among with rfl | isDigit
      · decide
      · exact isWhitespace_of_isDigit (Nat.isDigit_of_mem_toDigits (by decide) (by decide) isDigit)
    · exact isWhitespace_of_isDigit (Nat.isDigit_of_mem_toDigits (by decide) (by decide) among)
  apply isTrimmed_of_solid solid
  intro none
  have read := signedValue_intText number
  rw [none] at read
  exact nomatch read

theorem numberText_numberOfI64 (formats : Formats) {number : Int} (low : -2 ^ 63 ≤ number)
    (high : number < 2 ^ 63) : numberText formats (numberOfI64 number) = intText number := by
  unfold numberOfI64
  split_ifs with natural
  · have small : number.toNat < UInt64.size := by
      rw [show UInt64.size = 2 ^ 64 from rfl]
      omega
    rw [numberText, UInt64.toNat_ofNat_of_lt' small, Int.toNat_of_nonneg natural]
  · rw [numberText, Int64.toInt_ofInt_of_le low high]

theorem coerces_numberOfI64 {parseDatetime : String → Option Datetime}
    {definition : PropertyDefinition} (isNumber : definition.propertyType = .number) {number : Int}
    (low : -2 ^ 63 ≤ number) (high : number < 2 ^ 63) :
    Coerces parseDatetime definition (.number (numberOfI64 number)) (.integer number) := by
  unfold numberOfI64
  split_ifs with natural
  · have small : number.toNat < UInt64.size := by
      rw [show UInt64.size = 2 ^ 64 from rfl]
      omega
    have isNatural : (UInt64.ofNat number.toNat).toNat = number.toNat :=
      UInt64.toNat_ofNat_of_lt' small
    have coerces := @Coerces.natural parseDatetime definition (UInt64.ofNat number.toNat) isNumber
      (by omega)
    rw [isNatural, Int.toNat_of_nonneg natural] at coerces
    exact coerces
  · have coerces := @Coerces.negative parseDatetime definition (Int64.ofInt number) isNumber
    rw [Int64.toInt_ofInt_of_le low high] at coerces
    exact coerces

/-! ### Cells of a declared property -/

/-- A printed double reads as itself and as no integer, and a printed date-time is read back. -/
structure Formats.Lawful (formats : Formats) : Prop where
  trimmed : ∀ text bits, formats.parseFloat text = some bits → IsTrimmed text
  float : ∀ double, formats.parseFloat (formats.printFloat double) = some double.bits
  notInteger : ∀ double, parseI64 (formats.printFloat double) = none
  datetime : ∀ text datetime, formats.parseDatetime text = some datetime →
    formats.parseDatetime datetime.text = some datetime
  dated : ∀ text datetime, formats.parseDatetime text = some datetime → trim text ≠ ""

def strings : JsonValue → List String
  | .string text => [text]
  | .array items => items.filterMap fun item =>
    match item with
    | .string text => some text
    | _ => none
  | _ => []

/-- A cell is read as stored before; one target of a relation as a list, an empty list as nothing. -/
def ReadsBack (formats : Formats) (field : String) (base : BaseDefinition)
    (definition : PropertyDefinition) (stored : TomlValue) : Prop :=
  ∃ value, typedCell formats (csvValue formats (tomlValueToJson stored)) field base = .ok value ∧
    match stored with
    | .array [] => value = .null
    | .string text =>
      coercePropertyValue formats.parseDatetime (bareField field) value definition
        = .ok (if definition.propertyType = .relation then .array [.string text]
          else .string text)
    | stored =>
      coercePropertyValue formats.parseDatetime (bareField field) value definition = .ok stored

def Lists (definition : PropertyDefinition) : Prop :=
  definition.propertyType = .multiSelect ∨ definition.propertyType = .relation

section Declared

variable {formats : Formats} {field raw : String} {base : BaseDefinition}
  {definition : PropertyDefinition} {value : JsonValue} {stored : TomlValue}
  (property : base.property (bareField field) = some definition)
  (own : isSystemCell field = false)

include property own in
theorem typedCell_ok_iff (some : trim raw ≠ "") :
    typedCell formats raw field base = .ok value ↔
      cellValue formats (bareField field) raw definition.propertyType = .ok value
        ∧ ∃ stored, Coerces formats.parseDatetime definition value stored := by
  unfold typedCell
  simp only [if_neg some, own, Bool.false_eq_true, if_false, property, bind_ok_iff,
    okOr_ok_iff, mapError_ok_iff, coercePropertyValue_ok_iff]
  constructor
  · rintro ⟨_, isDefinition, read, isRead, coerced, accepted, same⟩
    cases isDefinition
    cases same
    exact ⟨isRead, coerced, accepted⟩
  · rintro ⟨isRead, coerced, accepted⟩
    exact ⟨_, rfl, value, isRead, coerced, accepted, rfl⟩

theorem typedCell_blank (blank : trim raw = "") : typedCell formats raw field base = .ok .null :=
  if_pos blank

include property own in
theorem exists_list_iff {texts : List String} (nonempty : texts ≠ [])
    (trimmed : ∀ text ∈ texts, IsTrimmed text)
    (listed : Lists definition)
    (accepted : Coerces formats.parseDatetime definition (.array (texts.map .string))
      (.array (texts.map .string))) :
    (∃ value, typedCell formats (";".intercalate texts) field base = .ok value ∧
        coercePropertyValue formats.parseDatetime (bareField field) value definition
          = .ok (.array (texts.map .string))) ↔ ∀ text ∈ texts, ';' ∉ text.toList := by
  have isCell : cellValue formats (bareField field) (";".intercalate texts) definition.propertyType
      = .ok (.array ((items (";".intercalate texts)).map .string)) := by
    rcases listed with isType | isType <;> rw [isType, cellValue]
  rw [← items_intercalate_iff nonempty trimmed]
  simp only [typedCell_ok_iff property own (trim_intercalate_ne_empty nonempty trimmed), isCell,
    coercePropertyValue_ok_iff]
  constructor
  · rintro ⟨value, ⟨same, _⟩, coerces⟩
    cases same
    exact coerces.same_texts
  · intro same
    rw [same]
    exact ⟨_, ⟨rfl, _, accepted⟩, accepted⟩

theorem csvItems_texts (texts : List String) : csvItems formats (texts.map .string) = texts := by
  induction texts with
  | nil => rfl
  | cons text rest ih =>
    rw [map_cons, csvItems, csvValue, ih]

theorem tomlItemsToJson_texts (texts : List String) :
    tomlItemsToJson (texts.map .string) = texts.map .string := by
  induction texts with
  | nil => rfl
  | cons text rest ih =>
    rw [map_cons, tomlItemsToJson, tomlValueToJson, ih, map_cons]

theorem csvValue_texts (texts : List String) :
    csvValue formats (tomlValueToJson (.array (texts.map .string))) = ";".intercalate texts := by
  rw [tomlValueToJson, tomlItemsToJson_texts, csvValue, csvItems_texts]

theorem strings_texts (texts : List String) : strings (.array (texts.map .string)) = texts := by
  rw [strings, filterMap_map]
  exact filterMap_some

theorem csvValue_string (text : String) :
    csvValue formats (tomlValueToJson (.string text)) = text := by
  rw [tomlValueToJson, csvValue]

include property own in
theorem exists_value_of_coerces (some : trim raw ≠ "")
    (isCell : cellValue formats (bareField field) raw definition.propertyType = .ok value)
    (coerces : Coerces formats.parseDatetime definition value stored) :
    ∃ value, typedCell formats raw field base = .ok value ∧
      coercePropertyValue formats.parseDatetime (bareField field) value definition = .ok stored :=
  ⟨value, (typedCell_ok_iff property own some).2 ⟨isCell, stored, coerces⟩,
    coercePropertyValue_ok_iff.2 coerces⟩

include property own in
theorem readsBack_integer (isNumber : definition.propertyType = .number) {number : Int}
    (low : -2 ^ 63 ≤ number) (high : number < 2 ^ 63) :
    ReadsBack formats field base definition (.integer number) := by
  have trimmed := isTrimmed_intText number
  have isText : csvValue formats (tomlValueToJson (.integer number)) = intText number := by
    rw [tomlValueToJson, csvValue]
    exact numberText_numberOfI64 formats low high
  unfold ReadsBack
  rw [isText]
  apply exists_value_of_coerces property own trimmed.trim_ne_empty _
    (coerces_numberOfI64 isNumber low high)
  rw [isNumber, cellValue, trimmed.1, cellNumber, parseI64_intText low high]
  rfl

include property own in
theorem readsBack_float (lawful : formats.Lawful) (isNumber : definition.propertyType = .number)
    (double : FiniteDouble) : ReadsBack formats field base definition (.float double.bits) := by
  have trimmed := lawful.trimmed _ _ (lawful.float double)
  have isText : csvValue formats (tomlValueToJson (.float double.bits))
      = formats.printFloat double := by
    rw [tomlValueToJson, dif_pos double.finite, csvValue]
    rfl
  unfold ReadsBack
  rw [isText]
  apply exists_value_of_coerces property own trimmed.trim_ne_empty _ (.double double isNumber)
  rw [isNumber, cellValue, trimmed.1, cellNumber, lawful.notInteger]
  dsimp only
  rw [lawful.float, Option.bind_some, numberOfF64, dif_pos double.finite]
  rfl

include property own in
theorem readsBack_flag (isFlag : definition.propertyType = .bool) (flag : Bool) :
    ReadsBack formats field base definition (.boolean flag) := by
  unfold ReadsBack
  rw [tomlValueToJson, csvValue]
  cases flag with
  | true =>
    apply exists_value_of_coerces property own (by decide) _ (.flag true isFlag)
    rw [isFlag]
    rfl
  | false =>
    apply exists_value_of_coerces property own (by decide) _ (.flag false isFlag)
    rw [isFlag]
    rfl

include property own in
theorem readsBack_moment (lawful : formats.Lawful) {text : String} {shape : DateShape}
    {datetime : Datetime}
    (isType : definition.propertyType = shape.propertyType)
    (isParsed : formats.parseDatetime text = some datetime)
    (admitted : shape.admits datetime = true) :
    ReadsBack formats field base definition (.datetime datetime.text) := by
  have again := lawful.datetime _ _ isParsed
  unfold ReadsBack
  rw [tomlValueToJson, csvValue]
  apply exists_value_of_coerces property own (lawful.dated _ _ again) _
    (.moment datetime.text shape datetime isType again admitted)
  rw [isType]
  cases shape <;> rfl

include property own in
theorem readsBack_string (single : ¬Lists definition) {text : String}
    (trimmed : IsTrimmed text)
    (isCell : cellValue formats (bareField field) text definition.propertyType = .ok (.string text))
    (coerces : Coerces formats.parseDatetime definition (.string text) (.string text)) :
    ReadsBack formats field base definition (.string text) := by
  unfold ReadsBack
  dsimp only
  rw [if_neg fun isRelation => single (.inr isRelation), csvValue_string]
  exact exists_value_of_coerces property own trimmed.trim_ne_empty isCell coerces

include property own in
theorem readsBack_target_iff (isRelation : definition.propertyType = .relation)
    {text : String} (trimmed : IsTrimmed text) :
    ReadsBack formats field base definition (.string text) ↔ ';' ∉ text.toList := by
  have eachTrimmed : ∀ each ∈ [text], IsTrimmed each := forall_mem_singleton.2 trimmed
  have single := @exists_list_iff formats field base definition property own [text]
    (cons_ne_nil text []) eachTrimmed (.inr isRelation) (.targets [text] isRelation)
  rw [forall_mem_singleton, String.intercalate_singleton] at single
  rw [← single, ReadsBack, csvValue_string]
  dsimp only
  rw [if_pos isRelation]
  rfl

include property own in
theorem readsBack_texts_iff (listed : Lists definition) {texts : List String}
    (trimmed : ∀ text ∈ texts, IsTrimmed text)
    (accepted : Coerces formats.parseDatetime definition (.array (texts.map .string))
      (.array (texts.map .string))) :
    ReadsBack formats field base definition (.array (texts.map .string)) ↔
      ∀ text ∈ texts, ';' ∉ text.toList := by
  cases texts with
  | nil =>
    refine iff_of_true ⟨.null, typedCell_blank ?_, rfl⟩ nofun
    rw [csvValue_texts]
    rfl
  | cons text rest =>
    rw [← exists_list_iff property own (cons_ne_nil text rest) trimmed listed accepted,
      ReadsBack, csvValue_texts]
    rfl

/-- **Exactly which values are read back from their cells.** -/
theorem exported_cell_reads_back_iff (lawful : formats.Lawful)
    (property : base.property (bareField field) = some definition)
    (own : isSystemCell field = false)
    (accepted : coercePropertyValue formats.parseDatetime (bareField field) value definition
      = .ok stored)
    (trimmed : ∀ text ∈ strings value, IsTrimmed text) :
    ReadsBack formats field base definition stored ↔
      (Lists definition → ∀ text ∈ strings value, ';' ∉ text.toList) := by
  have ofSingle : ¬Lists definition → ReadsBack formats field base definition stored →
      (ReadsBack formats field base definition stored ↔
        (Lists definition → ∀ text ∈ strings value, ';' ∉ text.toList)) :=
    fun single readsBack => iff_of_true readsBack fun listed => absurd listed single
  cases coercePropertyValue_ok_iff.1 accepted with
  | plain text isType =>
    have single : ¬Lists definition := by
      rcases isType with isType | isType <;> simp [Lists, isType]
    apply ofSingle single
    apply readsBack_string property own single (trimmed text mem_cons_self) _ (.plain text isType)
    rcases isType with isType | isType <;> rw [isType, cellValue] <;> nofun
  | choice text isType offered =>
    have single : ¬Lists definition := by simp [Lists, isType]
    apply ofSingle single
    apply readsBack_string property own single (trimmed text mem_cons_self) _
      (.choice text isType offered)
    rw [isType, cellValue] <;> nofun
  | target text isType =>
    rw [imp_iff_right (.inr isType), strings, forall_mem_singleton]
    exact readsBack_target_iff property own isType (trimmed text mem_cons_self)
  | targets texts isType =>
    rw [strings_texts] at trimmed ⊢
    rw [imp_iff_right (.inr isType)]
    exact readsBack_texts_iff property own (.inr isType) trimmed (.targets texts isType)
  | choices texts isType nodup each =>
    rw [strings_texts] at trimmed ⊢
    rw [imp_iff_right (.inl isType)]
    exact readsBack_texts_iff property own (.inl isType) trimmed (.choices texts isType nodup each)
  | natural number isType small =>
    apply ofSingle (by simp [Lists, isType])
    exact readsBack_integer property own isType (by omega) (by omega)
  | negative number isType =>
    apply ofSingle (by simp [Lists, isType])
    exact readsBack_integer property own isType number.le_toInt number.toInt_lt
  | double double isType =>
    apply ofSingle (by simp [Lists, isType])
    exact readsBack_float property own lawful isType double
  | flag flag isType =>
    apply ofSingle (by simp [Lists, isType])
    exact readsBack_flag property own isType flag
  | moment text shape datetime isType isParsed admitted =>
    have single : ¬Lists definition := by
      cases shape <;> simp [Lists, isType, DateShape.propertyType]
    exact ofSingle single (readsBack_moment property own lawful isType isParsed admitted)

end Declared

def bitFormats : Formats where
  parseFloat text :=
    if text.toList.getLast? = some 'b' then
      (digitsValue text.toList.dropLast).map UInt64.ofNat
    else none
  printFloat double := String.ofList (Nat.toDigits 10 double.bits.toNat ++ ['b'])
  printObject _ := ""
  parseDatetime _ := none
  isDate _ := false
  isWebUrl _ := false

theorem bitFormats_lawful : bitFormats.Lawful where
  trimmed text bits parsed := by
    have unfolded : (if text.toList.getLast? = some 'b' then
        (digitsValue text.toList.dropLast).map UInt64.ofNat else none) = some bits := parsed
    split_ifs at unfolded with marked
    have ⟨number, isNumber, _⟩ := Option.map_eq_some_iff.1 unfolded
    unfold digitsValue at isNumber
    split_ifs at isNumber with digits
    have isText : text.toList = text.toList.dropLast ++ ['b'] :=
      (dropLast_append_getLast? _ marked).symm
    have solid : ∀ character ∈ text.toList, isWhitespace character = false := by
      intro character among
      rw [isText] at among
      rcases mem_append.1 among with digit | mark
      · exact isWhitespace_of_isDigit (all_eq_true.1 digits.2 character digit)
      · rw [mem_singleton.1 mark]
        decide
    exact isTrimmed_of_solid solid (by rw [isText]; simp)
  float double := by
    have isText : (bitFormats.printFloat double).toList
        = Nat.toDigits 10 double.bits.toNat ++ ['b'] := String.toList_ofList
    show (if _ then _ else _) = _
    rw [isText, getLast?_concat, if_pos rfl, dropLast_concat, digitsValue_toDigits,
      Option.map_some, UInt64.ofNat_toNat]
  notInteger double := by
    have isText : (bitFormats.printFloat double).toList
        = Nat.toDigits 10 double.bits.toNat ++ ['b'] := String.toList_ofList
    have ⟨first, rest, split⟩ :=
      exists_cons_of_ne_nil (@Nat.toDigits_ne_nil double.bits.toNat 10)
    have digit : first.isDigit = true :=
      Nat.isDigit_of_mem_toDigits (by decide) (by decide) (split ▸ mem_cons_self)
    have notDigits : digitsValue (first :: (rest ++ ['b'])) = none := by
      rw [digitsValue, if_neg]
      rintro ⟨_, digits⟩
      have mark : 'b' ∈ first :: (rest ++ ['b']) := by simp
      exact absurd (all_eq_true.1 digits 'b' mark) (by decide)
    rw [parseI64, isText, split, cons_append, signedValue_of_digits digit, notDigits]
    rfl
  datetime _ _ parsed := nomatch parsed
  dated _ _ parsed := nomatch parsed

def themes : PropertyDefinition := ⟨.multiSelect, []⟩

def themesBase : BaseDefinition := ⟨[("themes", themes)]⟩

/-- Two themes are read back. -/
theorem exported_cell_reads_back_themes : ReadsBack bitFormats "prop.themes" themesBase themes
      (.array [.string "war", .string "sea"]) := by
  have accepted : coercePropertyValue bitFormats.parseDatetime (bareField "prop.themes")
      (.array [.string "war", .string "sea"]) themes
        = .ok (.array [.string "war", .string "sea"]) := rfl
  apply (exported_cell_reads_back_iff bitFormats_lawful rfl rfl accepted ?_).2
  · intro _ text among
    rcases mem_cons.1 among with rfl | last
    · decide
    · rw [mem_singleton.1 last]
      decide
  · intro text among
    rcases mem_cons.1 among with rfl | last
    · exact ⟨by decide, by decide⟩
    · rw [mem_singleton.1 last]
      exact ⟨by decide, by decide⟩

/-- One theme with a semicolon is read as two. -/
theorem exported_theme_splits :
    coercePropertyValue bitFormats.parseDatetime "themes" (.array [.string "war;sea"]) themes
        = .ok (.array [.string "war;sea"])
      ∧ IsTrimmed "war;sea"
      ∧ typedCell bitFormats (csvValue bitFormats (tomlValueToJson (.array [.string "war;sea"])))
          "prop.themes" themesBase = .ok (.array [.string "war", .string "sea"])
      ∧ ¬ReadsBack bitFormats "prop.themes" themesBase themes (.array [.string "war;sea"]) := by
  have splits : typedCell bitFormats (csvValue bitFormats
      (tomlValueToJson (.array [.string "war;sea"]))) "prop.themes" themesBase
        = .ok (.array [.string "war", .string "sea"]) := rfl
  refine ⟨rfl, ⟨by decide, by decide⟩, splits, ?_⟩
  rintro ⟨value, isRead, coerced⟩
  cases isRead.symm.trans splits
  have sameItems : [TomlValue.string "war", .string "sea"] = [.string "war;sea"] :=
    TomlValue.array.inj (Except.ok.inj coerced)
  exact absurd (congrArg List.length sameItems) (by decide)

end Clepsydra.Bases.Csv
