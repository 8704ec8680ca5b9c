import Clepsydra.Bases.Index

/-!
Owns: the coercion of a JSON value to the TOML value of a declared property, with its errors.

Proves: the values that are accepted, each with what is stored for it.
-/

namespace Clepsydra.Bases

open Library.Fallible Vault List

/-! ### Coercion -/

/-- `toml::value::Datetime`: its date, whether it has a time and an offset, and its text. -/
structure Datetime where
  date : Option (Nat × Nat × Nat)
  hasTime : Bool
  hasOffset : Bool
  text : String

inductive PropertyValueError where
  | invalidShape (key expected : String)
  | unknownOption (key options : String)
  | duplicateValue (key : String)
  | numberOutOfRange (key : String)

def PropertyValueError.toText : PropertyValueError → String
  | .invalidShape key expected => key ++ " must be " ++ expected
  | .unknownOption key options => key ++ " must be one of: " ++ options
  | .duplicateValue key => key ++ " must contain unique values"
  | .numberOutOfRange key => key ++ " must be a TOML-representable number"

inductive DateShape where
  | date
  | dateTime

def DateShape.propertyType : DateShape → PropertyType
  | .date => .date
  | .dateTime => .datetime

def DateShape.expected : DateShape → String
  | .date => "a valid date"
  | .dateTime => "a valid datetime"

def DateShape.admits (shape : DateShape) (datetime : Datetime) : Bool := (match shape with
    | .date => datetime.date.isSome && !datetime.hasTime && !datetime.hasOffset
    | .dateTime => datetime.date.isSome && datetime.hasTime)
  && datetime.date.any fun (year, month, day) => (NaiveDate.fromYmd year month day).isSome

section Coercion

variable (parseDatetime : String → Option Datetime)

def stringValue (key : String) : JsonValue → Except PropertyValueError String
  | .string text => .ok text
  | _ => .error (.invalidShape key "a string")

def relationItems (key : String) : List JsonValue → Except PropertyValueError (List TomlValue)
  | [] => .ok []
  | .string text :: rest => do
      let rest ← relationItems key rest
      pure (.string text :: rest)
  | _ :: _ => .error (.invalidShape key "a string or an array of strings")

def relationValue (key : String) : JsonValue → Except PropertyValueError TomlValue
  | .string text => .ok (.string text)
  | .array items => do
      let items ← relationItems key items
      pure (.array items)
  | _ => .error (.invalidShape key "a string or an array of strings")

def validateOption (key text : String) (definition : PropertyDefinition) :
    Except PropertyValueError Unit :=
  ensure (definition.options.isEmpty || definition.options.contains text)
    (.unknownOption key (", ".intercalate definition.options))

def selectValue (key : String) (value : JsonValue) (definition : PropertyDefinition) :
    Except PropertyValueError TomlValue := do
  let text ← stringValue key value
  validateOption key text definition
  pure (.string text)

/-- The items of an array; `seen` are those before. -/
def multiSelectItems (key : String) (definition : PropertyDefinition) (seen : List String) :
    List JsonValue → Except PropertyValueError (List TomlValue)
  | [] => .ok []
  | .string text :: rest => do
      ensure (!seen.contains text) (.duplicateValue key)
      validateOption key text definition
      let rest ← multiSelectItems key definition (text :: seen) rest
      pure (.string text :: rest)
  | _ :: _ => .error (.invalidShape key "an array of strings")

def multiSelectValue (key : String) (value : JsonValue) (definition : PropertyDefinition) :
    Except PropertyValueError TomlValue :=
  match value with
  | .array items => do
      let items ← multiSelectItems key definition [] items
      pure (.array items)
  | _ => .error (.invalidShape key "an array of strings")

/-- `as_i64`, `as_u64` and `as_f64` in this order. -/
def numberValue (key : String) : JsonValue → Except PropertyValueError TomlValue
  | .number (.posInt number) =>
    if number.toNat < 2 ^ 63 then .ok (.integer number.toNat) else .error (.numberOutOfRange key)
  | .number (.negInt number) => .ok (.integer number.toInt)
  | .number (.float double) => .ok (.float double.bits)
  | _ => .error (.invalidShape key "a number")

def flagValue (key : String) : JsonValue → Except PropertyValueError TomlValue
  | .bool flag => .ok (.boolean flag)
  | _ => .error (.invalidShape key "a boolean")

def datetimeValue (key : String) (value : JsonValue) (shape : DateShape) :
    Except PropertyValueError TomlValue :=
  match value with
  | .string text =>
    match (parseDatetime text).filter shape.admits with
    | some datetime => .ok (.datetime datetime.text)
    | none => .error (.invalidShape key shape.expected)
  | _ => .error (.invalidShape key shape.expected)

/-- `coerce_property_value`. -/
def coercePropertyValue (key : String) (value : JsonValue) (definition : PropertyDefinition) :
    Except PropertyValueError TomlValue :=
  match definition.propertyType with
  | .text | .url => (stringValue key value).map .string
  | .relation => relationValue key value
  | .select => selectValue key value definition
  | .multiSelect => multiSelectValue key value definition
  | .number => numberValue key value
  | .bool => flagValue key value
  | .date => datetimeValue parseDatetime key value .date
  | .datetime => datetimeValue parseDatetime key value .dateTime

end Coercion

/-! ### What is accepted -/

def PropertyDefinition.Offers (definition : PropertyDefinition) (text : String) : Prop :=
  definition.options = [] ∨ text ∈ definition.options

instance (definition : PropertyDefinition) (text : String) : Decidable (definition.Offers text) :=
  inferInstanceAs (Decidable (_ ∨ _))

inductive Coerces (parseDatetime : String → Option Datetime) (definition : PropertyDefinition) :
    JsonValue → TomlValue → Prop
  | plain (text : String) :
      definition.propertyType = .text ∨ definition.propertyType = .url →
      Coerces parseDatetime definition (.string text) (.string text)
  | target (text : String) : definition.propertyType = .relation →
      Coerces parseDatetime definition (.string text) (.string text)
  | targets (texts : List String) : definition.propertyType = .relation →
      Coerces parseDatetime definition (.array (texts.map .string)) (.array (texts.map .string))
  | choice (text : String) : definition.propertyType = .select → definition.Offers text →
      Coerces parseDatetime definition (.string text) (.string text)
  | choices (texts : List String) : definition.propertyType = .multiSelect → texts.Nodup →
      (∀ text ∈ texts, definition.Offers text) →
      Coerces parseDatetime definition (.array (texts.map .string)) (.array (texts.map .string))
  | natural (number : UInt64) : definition.propertyType = .number → number.toNat < 2 ^ 63 →
      Coerces parseDatetime definition (.number (.posInt number)) (.integer number.toNat)
  | negative (number : Int64) : definition.propertyType = .number →
      Coerces parseDatetime definition (.number (.negInt number)) (.integer number.toInt)
  | double (double : FiniteDouble) : definition.propertyType = .number →
      Coerces parseDatetime definition (.number (.float double)) (.float double.bits)
  | flag (flag : Bool) : definition.propertyType = .bool →
      Coerces parseDatetime definition (.bool flag) (.boolean flag)
  | moment (text : String) (shape : DateShape) (datetime : Datetime) :
      definition.propertyType = shape.propertyType → parseDatetime text = some datetime →
      shape.admits datetime = true →
      Coerces parseDatetime definition (.string text) (.datetime datetime.text)

section Accepted

variable {parseDatetime : String → Option Datetime} {key : String} {value : JsonValue}
  {definition : PropertyDefinition} {stored : TomlValue}

theorem stringValue_ok_iff {text : String} :
    stringValue key value = .ok text ↔ value = .string text := by
  cases value <;> simp [stringValue]

theorem validateOption_ok_iff {text : String} {done : Unit} :
    validateOption key text definition = .ok done ↔ definition.Offers text := by
  rw [validateOption, ensure_ok_iff, Bool.or_eq_true, List.isEmpty_iff, contains_iff_mem]
  rfl

theorem relationItems_ok_iff {items : List JsonValue} {coerced : List TomlValue} :
    relationItems key items = .ok coerced ↔
      ∃ texts : List String, items = texts.map .string ∧ coerced = texts.map .string := by
  induction items generalizing coerced with
  | nil => simp [relationItems, eq_comm]
  | cons item rest ih =>
    cases item with
    | string text =>
      rw [relationItems, bind_ok_iff]
      simp only [ih]
      constructor
      · rintro ⟨_, ⟨texts, rfl, rfl⟩, same⟩
        exact ⟨text :: texts, rfl, (Except.ok.inj same).symm⟩
      · rintro ⟨texts, isItems, rfl⟩
        cases texts with
        | nil => cases isItems
        | cons first others =>
          cases isItems
          exact ⟨_, ⟨others, rfl, rfl⟩, rfl⟩
    | _ =>
      constructor
      · intro failed
        cases failed
      · rintro ⟨texts, isItems, _⟩
        cases texts <;> cases isItems

theorem multiSelectItems_ok_iff {seen : List String} {items : List JsonValue}
    {coerced : List TomlValue} :
    multiSelectItems key definition seen items = .ok coerced ↔
      ∃ texts : List String, items = texts.map .string ∧ coerced = texts.map .string
        ∧ texts.Nodup ∧ ∀ text ∈ texts, text ∉ seen ∧ definition.Offers text := by
  induction items generalizing seen coerced with
  | nil => simp [multiSelectItems, eq_comm]
  | cons item rest ih =>
    cases item with
    | string text =>
      simp only [multiSelectItems, bind_ok_iff, ensure_ok_iff, validateOption_ok_iff,
        ih, Bool.not_eq_true', contains_eq_mem, decide_eq_false_iff_not]
      constructor
      · rintro ⟨_, fresh, _, offered, _, ⟨texts, rfl, rfl, nodup, each⟩, same⟩
        refine ⟨text :: texts, rfl, (Except.ok.inj same).symm, nodup_cons.2 ⟨?_, nodup⟩,
          forall_mem_cons.2 ⟨⟨fresh, offered⟩, ?_⟩⟩
        · exact fun among => (each text among).1 mem_cons_self
        · exact fun other among =>
            ⟨fun before => (each other among).1 (mem_cons_of_mem _ before), (each other among).2⟩
      · rintro ⟨texts, isItems, rfl, nodup, each⟩
        cases texts with
        | nil => cases isItems
        | cons first others =>
          cases isItems
          obtain ⟨absent, nodup⟩ := nodup_cons.1 nodup
          obtain ⟨⟨fresh, offered⟩, each⟩ := forall_mem_cons.1 each
          refine ⟨(), fresh, (), offered, _, ⟨others, rfl, rfl, nodup, ?_⟩, rfl⟩
          intro other among
          refine ⟨?_, (each other among).2⟩
          rw [mem_cons, not_or]
          exact ⟨fun same => absent (same ▸ among), (each other among).1⟩
    | _ =>
      constructor
      · intro failed
        cases failed
      · rintro ⟨texts, isItems, _⟩
        cases texts <;> cases isItems

theorem datetimeValue_ok_iff {shape : DateShape} :
    datetimeValue parseDatetime key value shape = .ok stored ↔
      ∃ text datetime, value = .string text ∧ parseDatetime text = some datetime
        ∧ shape.admits datetime = true ∧ stored = .datetime datetime.text := by
  cases value with
  | string text =>
    rw [datetimeValue]
    constructor
    · intro success
      split at success
      · rename_i datetime found
        have ⟨isParsed, admitted⟩ := Option.filter_eq_some_iff.1 found
        exact ⟨text, datetime, rfl, isParsed, admitted, (Except.ok.inj success).symm⟩
      · cases success
    · rintro ⟨_, datetime, same, isParsed, admitted, rfl⟩
      cases same
      rw [Option.filter_eq_some_iff.2 ⟨isParsed, admitted⟩]
  | _ =>
    constructor
    · intro failed
      cases failed
    · rintro ⟨_, _, same, _⟩
      cases same

theorem coercePropertyValue_ok_iff :
    coercePropertyValue parseDatetime key value definition = .ok stored ↔
      Coerces parseDatetime definition value stored := by
  constructor
  · intro success
    unfold coercePropertyValue at success
    split at success
    · rename_i isType
      obtain ⟨text, isText, rfl⟩ := of_map_ok success
      rw [stringValue_ok_iff.1 isText]
      exact .plain text (.inl isType)
    · rename_i isType
      obtain ⟨text, isText, rfl⟩ := of_map_ok success
      rw [stringValue_ok_iff.1 isText]
      exact .plain text (.inr isType)
    · rename_i isType
      cases value with
      | string text =>
        cases success
        exact .target text isType
      | array items =>
        have ⟨coerced, isItems, same⟩ := of_bind_ok success
        obtain ⟨texts, rfl, rfl⟩ := relationItems_ok_iff.1 isItems
        cases same
        exact .targets texts isType
      | _ => cases success
    · rename_i isType
      have ⟨text, isText, rest⟩ := of_bind_ok success
      have ⟨done, offered, same⟩ := of_bind_ok rest
      cases same
      rw [stringValue_ok_iff.1 isText]
      exact .choice text isType (validateOption_ok_iff.1 offered)
    · rename_i isType
      cases value with
      | array items =>
        have ⟨coerced, isItems, same⟩ := of_bind_ok success
        obtain ⟨texts, rfl, rfl, nodup, each⟩ := multiSelectItems_ok_iff.1 isItems
        cases same
        exact .choices texts isType nodup fun text among => (each text among).2
      | _ => cases success
    · rename_i isType
      unfold numberValue at success
      split at success
      · split_ifs at success with small
        cases success
        exact .natural _ isType small
      · cases success
        exact .negative _ isType
      · cases success
        exact .double _ isType
      · cases success
    · rename_i isType
      cases value with
      | bool flag =>
        cases success
        exact .flag flag isType
      | _ => cases success
    · rename_i isType
      obtain ⟨text, datetime, rfl, isParsed, admitted, rfl⟩ := datetimeValue_ok_iff.1 success
      exact .moment text .date datetime isType isParsed admitted
    · rename_i isType
      obtain ⟨text, datetime, rfl, isParsed, admitted, rfl⟩ := datetimeValue_ok_iff.1 success
      exact .moment text .dateTime datetime isType isParsed admitted
  · intro coerces
    unfold coercePropertyValue
    cases coerces with
    | plain text isType =>
      rcases isType with isType | isType
      · rw [isType]
        rfl
      · rw [isType]
        rfl
    | target text isType | negative number isType | double double isType | flag flag isType =>
      rw [isType]
      rfl
    | targets texts isType =>
      rw [isType]
      exact bind_ok_iff.2 ⟨_, relationItems_ok_iff.2 ⟨texts, rfl, rfl⟩, rfl⟩
    | choice text isType offered =>
      rw [isType]
      exact bind_ok_iff.2 ⟨text, rfl, bind_ok_iff.2
        ⟨(), validateOption_ok_iff.2 offered, rfl⟩⟩
    | choices texts isType nodup each =>
      rw [isType]
      exact bind_ok_iff.2 ⟨_, multiSelectItems_ok_iff.2
        ⟨texts, rfl, rfl, nodup, fun text among => ⟨not_mem_nil, each text among⟩⟩, rfl⟩
    | natural number isType small =>
      rw [isType]
      exact if_pos small
    | moment text shape datetime isType isParsed admitted =>
      rw [isType]
      cases shape with
      | date => exact datetimeValue_ok_iff.2 ⟨text, datetime, rfl, isParsed, admitted, rfl⟩
      | dateTime =>
        exact datetimeValue_ok_iff.2 ⟨text, datetime, rfl, isParsed, admitted, rfl⟩

theorem Coerces.same_texts {texts others : List String}
    (coerces : Coerces parseDatetime definition (.array (texts.map .string))
      (.array (others.map .string))) : texts = others := by
  have sameJson : ∀ {left right : List String},
      left.map JsonValue.string = right.map JsonValue.string → left = right :=
    fun same => map_injective_iff.2 (fun _ _ => JsonValue.string.inj) same
  have sameToml : ∀ {left right : List String},
      left.map TomlValue.string = right.map TomlValue.string → left = right :=
    fun same => map_injective_iff.2 (fun _ _ => TomlValue.string.inj) same
  generalize isValue : JsonValue.array (texts.map .string) = value at coerces
  generalize isStored : TomlValue.array (others.map .string) = stored at coerces
  cases coerces with
  | targets | choices =>
    exact (sameJson (JsonValue.array.inj isValue)).trans
      (sameToml (TomlValue.array.inj isStored)).symm
  | _ => cases isValue

end Accepted

end Clepsydra.Bases
