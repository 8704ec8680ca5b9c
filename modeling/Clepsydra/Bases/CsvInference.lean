import Clepsydra.Bases.CsvCell

/-!
Owns: the definition that is inferred for a CSV column that is not declared.

Proves: exactly for which columns it accepts every cell.
-/

namespace Clepsydra.Bases.Csv

open Library Library.Fallible Vault List Option

/-! ### Inference -/

section Inference

variable (formats : Formats)

def present (values : List String) : List String := values.filter fun value => trim value ≠ ""

def isCheckbox (value : String) : Bool := (checkbox value).isSome

def isFiniteFloat (value : String) : Bool := ((formats.parseFloat value).bind numberOfF64).isSome

def isMail (value : String) : Bool := value.toList.contains '@' && !value.toList.any isWhitespace

def hasSeparator (value : String) : Bool := value.toList.contains ';'

def allPresent (values : List String) (predicate : String → Bool) : Bool :=
  !(present values).isEmpty && (present values).all predicate

def unread (values : List String) : Bool :=
  !allPresent values isCheckbox && !allPresent values (isFiniteFloat formats)
    && !allPresent values formats.isDate && !allPresent values formats.isWebUrl
    && !allPresent values isMail

def repeats (values : List String) : Bool := (present values).eraseDups.length ≤ 20
    && (present values).eraseDups.length < (present values).length

def inferredType (values : List String) : PropertyType :=
  if allPresent values isCheckbox then .bool
  else if allPresent values (isFiniteFloat formats) then .number
  else if allPresent values formats.isDate then .date
  else if allPresent values formats.isWebUrl then .url
  else if allPresent values isMail then .text
  else if (present values).any hasSeparator then .multiSelect
  else if repeats values then .select
  else .text

def inferredOptions (values : List String) : List String :=
  ((present values).flatMap items).eraseDups

def inferDefinition (values : List String) : PropertyDefinition where
  propertyType := inferredType formats values
  options :=
    if inferredType formats values = .select ∨ inferredType formats values = .multiSelect then
      inferredOptions values
    else []

end Inference

def declare (base : BaseDefinition) (key : String) (definition : PropertyDefinition) :
    BaseDefinition :=
  { base with properties := base.properties ++ [(key, definition)] }

theorem property_declare {base : BaseDefinition} {key : String} {definition : PropertyDefinition}
    (undeclared : base.property key = none) :
    (declare base key definition).property key = some definition := by
  have absent : base.declaredProperty key = none := (or_eq_none_iff.1 undeclared).1
  have found : (declare base key definition).declaredProperty key = some definition := by
    show (base.properties ++ [(key, definition)]).lookup key = _
    rw [lookup_append, show base.properties.lookup key = none from absent]
    simp
  rw [BaseDefinition.property, found, some_or]

/-! ### Cells of an inferred column -/

section Column

variable {formats : Formats} {field raw : String} {base : BaseDefinition}
  {definition : PropertyDefinition} {values : List String}
  (property : base.property (bareField field) = some definition)
  (own : isSystemCell field = false)

def Accepts (formats : Formats) (field : String) (base : BaseDefinition) (raw : String) : Prop :=
  ∃ value, typedCell formats raw field base = .ok value

/-- A date as `typedCell` checks it. -/
def isTomlDate (formats : Formats) (value : String) : Bool :=
  ((formats.parseDatetime value).filter DateShape.date.admits).isSome

theorem mem_present_iff {value : String} :
    value ∈ present values ↔ value ∈ values ∧ trim value ≠ "" := by
  rw [present, mem_filter, decide_eq_true_eq]

include property own in
theorem accepts_iff (notBlank : trim raw ≠ "") :
    Accepts formats field base raw ↔
      ∃ value, cellValue formats (bareField field) raw definition.propertyType = .ok value
        ∧ ∃ stored, Coerces formats.parseDatetime definition value stored := by
  unfold Accepts
  simp only [typedCell_ok_iff property own notBlank]

theorem accepts_all_iff : (∀ value ∈ values, Accepts formats field base value) ↔
      ∀ value ∈ present values, Accepts formats field base value := by
  constructor
  · intro each value among
    exact each value (mem_present_iff.1 among).1
  · intro each value among
    by_cases blank : trim value = ""
    · exact ⟨.null, typedCell_blank blank⟩
    · exact each value (mem_present_iff.2 ⟨among, blank⟩)

theorem forall_of_allPresent {predicate : String → Bool}
    (every : allPresent values predicate = true) :
    ∀ value ∈ present values, predicate value = true := by
  rw [allPresent, Bool.and_eq_true] at every
  exact List.all_eq_true.1 every.2

theorem trim_of_isCheckbox (isFlag : isCheckbox raw = true) : trim raw = raw := by
  have spelled : asciiLowercase raw ∈ ["true", "yes", "false", "no"] := by
    unfold isCheckbox checkbox at isFlag
    dsimp only at isFlag
    split_ifs at isFlag with affirmed denied
    · rcases affirmed with same | same <;> rw [same] <;> decide
    · rcases denied with same | same <;> rw [same] <;> decide
    · cases isFlag
  have solidSpelling : ∀ text ∈ ["true", "yes", "false", "no"],
      text.toList.all (fun character => !isWhitespace character) = true := by decide
  have solid : ∀ character ∈ raw.toList, isWhitespace character = false := by
    intro character among
    by_contra blank
    rw [Bool.not_eq_false] at blank
    have inside : character.toLower ∈ (asciiLowercase raw).toList := by
      rw [asciiLowercase, String.toList_ofList]
      exact List.mem_map_of_mem among
    have notBlank := List.all_eq_true.1 (solidSpelling _ spelled) character.toLower inside
    rw [isWhitespace_toLower, blank] at notBlank
    exact absurd notBlank Bool.false_ne_true
  rw [trim_eq_self_iff]
  exact ⟨fun first isFirst => solid first (mem_of_mem_head? isFirst),
    fun last isLast => solid last (mem_of_mem_getLast? isLast)⟩

include property own in
theorem accepts_checkbox (notBlank : trim raw ≠ "")
    (isType : definition.propertyType = .bool) (isFlag : isCheckbox raw = true) :
    Accepts formats field base raw := by
  have ⟨flag, isChecked⟩ := isSome_iff_exists.1 isFlag
  refine (accepts_iff property own notBlank).2 ⟨.bool flag, ?_, _, .flag flag isType⟩
  rw [isType, cellValue, trim_of_isCheckbox isFlag, isChecked]
  rfl

theorem coerces_cellNumber {parseDatetime : String → Option Datetime} {number : SerdeNumber}
    (isType : definition.propertyType = .number) (isNumber : cellNumber formats raw = some number) :
    ∃ stored, Coerces parseDatetime definition (.number number) stored := by
  unfold cellNumber at isNumber
  split at isNumber
  · rename_i integer isInteger
    have ⟨_, bounds⟩ := filter_eq_some_iff.1 isInteger
    have range : -2 ^ 63 ≤ integer ∧ integer < 2 ^ 63 := of_decide_eq_true bounds
    cases isNumber
    exact ⟨_, coerces_numberOfI64 isType range.1 range.2⟩
  · have ⟨bits, _, isDouble⟩ := bind_eq_some_iff.1 isNumber
    unfold numberOfF64 at isDouble
    split_ifs at isDouble
    cases isDouble
    exact ⟨_, .double _ isType⟩

include property own in
theorem accepts_number (trimmed : ∀ text bits, formats.parseFloat text = some bits → IsTrimmed text)
    (notBlank : trim raw ≠ "")
    (isType : definition.propertyType = .number) (isFloat : isFiniteFloat formats raw = true) :
    Accepts formats field base raw := by
  obtain ⟨double, isDouble⟩ := isSome_iff_exists.1 isFloat
  obtain ⟨bits, isBits, _⟩ := bind_eq_some_iff.1 isDouble
  have isRead : ∃ number, cellNumber formats raw = some number := by
    unfold cellNumber
    cases parseI64 raw with
    | some integer => exact ⟨_, rfl⟩
    | none => exact ⟨double, isDouble⟩
  obtain ⟨number, isNumber⟩ := isRead
  obtain ⟨stored, coerces⟩ := coerces_cellNumber isType isNumber
  refine (accepts_iff property own notBlank).2 ⟨.number number, ?_, stored, coerces⟩
  rw [isType, cellValue, (trimmed raw bits isBits).1, isNumber]
  rfl

include property own in
theorem accepts_plain (notBlank : trim raw ≠ "")
    (isType : definition.propertyType = .text ∨ definition.propertyType = .url) :
    Accepts formats field base raw := by
  refine (accepts_iff property own notBlank).2 ⟨.string raw, ?_, _, .plain raw isType⟩
  rcases isType with isType | isType <;> rw [isType, cellValue] <;> rintro ⟨⟩

theorem coerces_string_iff {parseDatetime : String → Option Datetime}
    (isType : definition.propertyType = .date) :
    (∃ stored, Coerces parseDatetime definition (.string raw) stored) ↔
      ((parseDatetime raw).filter DateShape.date.admits).isSome = true := by
  constructor
  · rintro ⟨stored, coerces⟩
    generalize isValue : JsonValue.string raw = value at coerces
    cases coerces with
    | moment text shape datetime isShape isParsed admitted =>
      cases isValue
      cases shape with
      | date => rw [filter_eq_some_iff.2 ⟨isParsed, admitted⟩]; rfl
      | dateTime => simp [isType, DateShape.propertyType] at isShape
    | plain _ other | target _ other | choice _ other => simp [isType] at other
    | _ => cases isValue
  · intro isDate
    obtain ⟨datetime, found⟩ := isSome_iff_exists.1 isDate
    obtain ⟨isParsed, admitted⟩ := filter_eq_some_iff.1 found
    exact ⟨_, .moment raw .date datetime isType isParsed admitted⟩

include property own in
theorem accepts_date_iff (notBlank : trim raw ≠ "")
    (isType : definition.propertyType = .date) :
    Accepts formats field base raw ↔ isTomlDate formats raw = true := by
  have isCell : cellValue formats (bareField field) raw definition.propertyType
      = .ok (.string raw) := by
    rw [isType, cellValue] <;> rintro ⟨⟩
  rw [accepts_iff property own notBlank, isCell, isTomlDate, ← coerces_string_iff isType]
  constructor
  · rintro ⟨_, same, coerces⟩
    exact Except.ok.inj same ▸ coerces
  · exact fun coerces => ⟨_, rfl, coerces⟩

include property own in
theorem accepts_items_iff (notBlank : trim raw ≠ "")
    (isType : definition.propertyType = .multiSelect)
    (offered : ∀ item ∈ items raw, definition.Offers item) :
    Accepts formats field base raw ↔ (items raw).Nodup := by
  have isCell : cellValue formats (bareField field) raw definition.propertyType
      = .ok (.array ((items raw).map .string)) := by
    rw [isType, cellValue]
  rw [accepts_iff property own notBlank, isCell]
  constructor
  · rintro ⟨value, same, stored, coerces⟩
    cases same
    generalize isValue : JsonValue.array ((items raw).map .string) = value at coerces
    cases coerces with
    | choices texts _ nodup _ =>
      have sameTexts : items raw = texts :=
        map_injective_iff.2 (fun _ _ => JsonValue.string.inj) (JsonValue.array.inj isValue)
      rw [sameTexts]
      exact nodup
    | targets _ other => simp [isType] at other
    | _ => cases isValue
  · exact fun nodup => ⟨_, rfl, _, .choices (items raw) isType nodup offered⟩

include property own in
theorem accepts_choice_iff (notBlank : trim raw ≠ "")
    (isType : definition.propertyType = .select) :
    Accepts formats field base raw ↔ definition.Offers raw := by
  have isCell : cellValue formats (bareField field) raw definition.propertyType
      = .ok (.string raw) := by
    rw [isType, cellValue] <;> rintro ⟨⟩
  rw [accepts_iff property own notBlank, isCell]
  constructor
  · rintro ⟨value, same, stored, coerces⟩
    cases same
    cases coerces with
    | choice _ _ offered => exact offered
    | plain _ other | target _ other => simp [isType] at other
    | moment _ shape _ other => cases shape <;> simp [isType, DateShape.propertyType] at other
  · exact fun offered => ⟨_, rfl, _, .choice raw isType offered⟩

/-! ### Options -/

theorem mem_inferredOptions_iff {item : String} :
    item ∈ inferredOptions values ↔ ∃ value ∈ present values, item ∈ items value := by
  rw [inferredOptions, mem_eraseDups, mem_flatMap]

theorem items_of_single (single : hasSeparator raw = false) (notBlank : trim raw ≠ "") :
    items raw = [trim raw] := by
  have absent : ';' ∉ raw.toList := by
    simpa [hasSeparator] using single
  rw [items, splitOn_eq_singleton absent, map_singleton, String.ofList_toList]
  exact filter_eq_self.2 (forall_mem_singleton.2 (decide_eq_true notBlank))

theorem mem_options_iff_of_single (single : ∀ value ∈ present values, hasSeparator value = false) :
    ∀ value ∈ present values, (value ∈ inferredOptions values ↔ trim value = value) := by
  have isItem : ∀ value ∈ present values, items value = [trim value] := fun value among =>
    items_of_single (single value among) (mem_present_iff.1 among).2
  intro value among
  rw [mem_inferredOptions_iff]
  constructor
  · rintro ⟨other, otherAmong, inside⟩
    rw [isItem other otherAmong, mem_singleton] at inside
    rw [inside, trim_trim]
  · intro same
    refine ⟨value, among, ?_⟩
    rw [isItem value among, same, mem_singleton]

end Column

/-! ### Columns -/

section Columns

variable {formats : Formats} {field : String} {base : BaseDefinition} {values : List String}

/-- Dates are ones TOML has; no list names an item twice; no choice has blanks around it. -/
structure Agrees (formats : Formats) (values : List String) : Prop where
  dates : allPresent values isCheckbox = false → allPresent values (isFiniteFloat formats) = false →
    allPresent values formats.isDate = true → ∀ value ∈ present values, isTomlDate formats value
  lists : unread formats values = true → (present values).any hasSeparator = true →
    ∀ value ∈ present values, (items value).Nodup
  choices : unread formats values = true → (present values).any hasSeparator = false →
    repeats values = true → ∀ value ∈ present values, trim value = value

theorem Agrees.of_read (read : unread formats values = false)
    (noDates : allPresent values isCheckbox = true
      ∨ allPresent values (isFiniteFloat formats) = true
      ∨ allPresent values formats.isDate = false) : Agrees formats values := by
  constructor
  · intro noFlags noNumbers isDates
    simp [noFlags, noNumbers, isDates] at noDates
  · intro none
    rw [read] at none
    exact absurd none Bool.false_ne_true
  · intro none
    rw [read] at none
    exact absurd none Bool.false_ne_true

theorem agrees_dates_iff (flags : allPresent values isCheckbox = false)
    (numbers : allPresent values (isFiniteFloat formats) = false)
    (dates : allPresent values formats.isDate = true) :
    Agrees formats values ↔ ∀ value ∈ present values, isTomlDate formats value = true := by
  have read : unread formats values = false := by simp [unread, dates]
  constructor
  · exact fun agrees => agrees.dates flags numbers dates
  · intro isDates
    refine ⟨fun _ _ _ => isDates, ?_, ?_⟩
    · exact fun none => absurd (read.symm.trans none) Bool.false_ne_true
    · exact fun none => absurd (read.symm.trans none) Bool.false_ne_true

theorem not_dates_of_unread (none : unread formats values = true) :
    allPresent values formats.isDate ≠ true := by
  intro dates
  simp [unread, dates] at none

theorem agrees_lists_iff (none : unread formats values = true)
    (separated : (present values).any hasSeparator = true) :
    Agrees formats values ↔ ∀ value ∈ present values, (items value).Nodup := by
  constructor
  · exact fun agrees => agrees.lists none separated
  · intro nodup
    refine ⟨fun _ _ isDates => absurd isDates (not_dates_of_unread none), fun _ _ => nodup, ?_⟩
    exact fun _ single => absurd (single.symm.trans separated) Bool.false_ne_true

theorem agrees_choices_iff (none : unread formats values = true)
    (single : (present values).any hasSeparator = false) (repeated : repeats values = true) :
    Agrees formats values ↔ ∀ value ∈ present values, trim value = value := by
  constructor
  · exact fun agrees => agrees.choices none single repeated
  · intro tight
    refine ⟨fun _ _ isDates => absurd isDates (not_dates_of_unread none), ?_, fun _ _ _ => tight⟩
    exact fun _ separated => absurd (single.symm.trans separated) Bool.false_ne_true

theorem agrees_texts (none : unread formats values = true)
    (single : (present values).any hasSeparator = false) (repeated : repeats values ≠ true) :
    Agrees formats values :=
  ⟨fun _ _ isDates => absurd isDates (not_dates_of_unread none),
    fun _ separated => absurd (single.symm.trans separated) Bool.false_ne_true,
    fun _ _ some => absurd some repeated⟩

theorem options_inferDefinition (listed : inferredType formats values = .select
    ∨ inferredType formats values = .multiSelect) :
    (inferDefinition formats values).options = inferredOptions values := if_pos listed

variable (property : base.property (bareField field) = some (inferDefinition formats values))

include property

theorem lists_accept_iff (own : isSystemCell field = false)
    (isType : inferredType formats values = .multiSelect) :
    (∀ value ∈ present values, Accepts formats field base value) ↔
      ∀ value ∈ present values, (items value).Nodup := by
  refine forall₂_congr fun value among => ?_
  apply accepts_items_iff property own (mem_present_iff.1 among).2 isType
  intro item inside
  rw [PropertyDefinition.Offers, options_inferDefinition (.inr isType)]
  exact .inr (mem_inferredOptions_iff.2 ⟨value, among, inside⟩)

theorem choices_accept_iff (own : isSystemCell field = false)
    (isType : inferredType formats values = .select)
    (single : (present values).any hasSeparator = false) :
    (∀ value ∈ present values, Accepts formats field base value) ↔
      ∀ value ∈ present values, trim value = value := by
  have noSeparator : ∀ value ∈ present values, hasSeparator value = false := by
    intro value among
    have none := List.any_eq_false.1 single value among
    rwa [Bool.not_eq_true] at none
  refine forall₂_congr fun value among => ?_
  have notBlank := (mem_present_iff.1 among).2
  have isItem : trim value ∈ inferredOptions values := by
    apply mem_inferredOptions_iff.2
    refine ⟨value, among, ?_⟩
    rw [items_of_single (noSeparator value among) notBlank, mem_singleton]
  rw [accepts_choice_iff property own notBlank isType, PropertyDefinition.Offers,
    options_inferDefinition (.inl isType), or_iff_right (ne_nil_of_mem isItem),
    mem_options_iff_of_single noSeparator value among]

omit property

/-- **Exactly which columns an inferred definition accepts every cell of.** -/
theorem inferred_column_accepts_iff
    (trimmed : ∀ text bits, formats.parseFloat text = some bits → IsTrimmed text)
    (undeclared : base.property (bareField field) = none) (own : isSystemCell field = false) :
    (∀ value ∈ values, Accepts formats field
        (declare base (bareField field) (inferDefinition formats values)) value) ↔
      Agrees formats values := by
  have property := @property_declare base _ (inferDefinition formats values) undeclared
  have notBlank : ∀ {value}, value ∈ present values → trim value ≠ "" :=
    fun among => (mem_present_iff.1 among).2
  rw [accepts_all_iff]
  -- the types in the order in which they are tried
  by_cases flags : allPresent values isCheckbox = true
  · have isType : inferredType formats values = .bool := if_pos flags
    refine iff_of_true (fun value among => ?_) (.of_read (by simp [unread, flags]) (.inl flags))
    exact accepts_checkbox property own (notBlank among) isType
      (forall_of_allPresent flags value among)
  by_cases numbers : allPresent values (isFiniteFloat formats) = true
  · have isType : inferredType formats values = .number := by
      rw [inferredType, if_neg flags, if_pos numbers]
    refine iff_of_true (fun value among => ?_)
      (.of_read (by simp [unread, numbers]) (.inr (.inl numbers)))
    exact accepts_number property own trimmed (notBlank among) isType
      (forall_of_allPresent numbers value among)
  by_cases dates : allPresent values formats.isDate = true
  · have isType : inferredType formats values = .date := by
      rw [inferredType, if_neg flags, if_neg numbers, if_pos dates]
    rw [Bool.not_eq_true] at flags numbers
    rw [agrees_dates_iff flags numbers dates]
    exact forall₂_congr fun value among => accepts_date_iff property own (notBlank among) isType
  have noDates := (Bool.not_eq_true _).mp dates
  by_cases urls : allPresent values formats.isWebUrl = true
  · have isType : inferredType formats values = .url := by
      rw [inferredType, if_neg flags, if_neg numbers, if_neg dates, if_pos urls]
    refine iff_of_true (fun value among => ?_)
      (.of_read (by simp [unread, urls]) (.inr (.inr noDates)))
    exact accepts_plain property own (notBlank among) (.inr isType)
  by_cases mails : allPresent values isMail = true
  · have isType : inferredType formats values = .text := by
      rw [inferredType, if_neg flags, if_neg numbers, if_neg dates, if_neg urls, if_pos mails]
    refine iff_of_true (fun value among => ?_)
      (.of_read (by simp [unread, mails]) (.inr (.inr noDates)))
    exact accepts_plain property own (notBlank among) (.inl isType)
  have none : unread formats values = true := by
    simp [unread, flags, numbers, dates, urls, mails]
  have isRest : inferredType formats values = if (present values).any hasSeparator then .multiSelect
        else if repeats values then .select else .text := by
    rw [inferredType, if_neg flags, if_neg numbers, if_neg dates, if_neg urls, if_neg mails]
  by_cases separated : (present values).any hasSeparator = true
  · rw [if_pos separated] at isRest
    rw [agrees_lists_iff none separated, lists_accept_iff property own isRest]
  rw [if_neg separated] at isRest
  rw [Bool.not_eq_true] at separated
  by_cases repeated : repeats values = true
  · rw [if_pos repeated] at isRest
    rw [agrees_choices_iff none separated repeated,
      choices_accept_iff property own isRest separated]
  · rw [if_neg repeated] at isRest
    refine iff_of_true (fun value among => ?_) (agrees_texts none separated repeated)
    exact accepts_plain property own (notBlank among) (.inl isRest)

end Columns

/-- Cells that are lists of different items are accepted. -/
theorem inferred_column_accepts_topics :
    inferDefinition bitFormats ["a;b", "", "b;c"] = ⟨.multiSelect, ["a", "b", "c"]⟩
      ∧ ∀ value ∈ ["a;b", "", "b;c"], Accepts bitFormats "prop.topics"
        (declare ⟨[]⟩ "topics" (inferDefinition bitFormats ["a;b", "", "b;c"])) value := by
  have agrees : Agrees bitFormats ["a;b", "", "b;c"] := by
    refine ⟨?_, ?_, ?_⟩ <;> decide
  exact ⟨by decide, (inferred_column_accepts_iff bitFormats_lawful.trimmed rfl rfl).2 agrees⟩

/-- An item that a cell names twice is an error. -/
theorem inferred_column_rejects_repetition :
    inferDefinition bitFormats ["a;a"] = ⟨.multiSelect, ["a"]⟩
      ∧ typedCell bitFormats "a;a" "prop.topics"
          (declare ⟨[]⟩ "topics" (inferDefinition bitFormats ["a;a"]))
        = .error "topics must contain unique values"
      ∧ ¬∀ value ∈ ["a;a"], Accepts bitFormats "prop.topics"
        (declare ⟨[]⟩ "topics" (inferDefinition bitFormats ["a;a"])) value := by
  have rejected : typedCell bitFormats "a;a" "prop.topics"
      (declare ⟨[]⟩ "topics" (inferDefinition bitFormats ["a;a"]))
        = .error "topics must contain unique values" := rfl
  refine ⟨by decide, rejected, ?_⟩
  intro each
  have ⟨value, accepted⟩ := each "a;a" mem_cons_self
  exact nomatch rejected.symm.trans accepted

end Clepsydra.Bases.Csv
