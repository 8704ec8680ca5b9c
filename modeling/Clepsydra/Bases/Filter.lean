import Clepsydra.Bases.Date

/-!
Owns: the data of a base that its filters read. JSON literals, property types
and their declarations, the comparison operators, the filter tree, and the date
window of each relative-date operator.
-/

namespace Clepsydra.Bases

/-! ### JSON literals -/

def roundToDouble (number : Nat) : Nat :=
  let excess := Nat.log2 number + 1 - 53
  let kept := number / 2 ^ excess
  let lost := number % 2 ^ excess
  let half := 2 ^ excess / 2
  if excess = 0 then number
  else if half < lost ∨ (lost = half ∧ kept % 2 = 1) then (kept + 1) * 2 ^ excess
  else kept * 2 ^ excess

/-- `n as f64` for a 64-bit integer, by the exact value of the result. -/
def doubleOfInt (number : Int) : ℚ :=
  if number < 0 then -(roundToDouble number.natAbs : ℚ) else (roundToDouble number.natAbs : ℚ)

inductive JsonNumber where
  | integer (value : Int)
  | float (value : ℚ) (text : String)
deriving DecidableEq

/-- `Number::as_f64`. -/
def JsonNumber.toDouble : JsonNumber → ℚ
  | .integer value => doubleOfInt value
  | .float value _ => value

/-- `Number::to_string`. -/
def JsonNumber.toText : JsonNumber → String
  | .integer value => toString value
  | .float _ text => text

inductive Json where
  | null
  | bool (value : Bool)
  | number (value : JsonNumber)
  | string (value : String)
  | array (items : List Json)
  | object (entries : List (String × Json))

/-- `Value::is_null`. -/
def Json.isNull : Json → Bool
  | .null => true
  | _ => false

/-- `Value::as_str`. -/
def Json.asString : Json → Option String
  | .string value => some value
  | _ => none

/-- `Value::as_array`. -/
def Json.asArray : Json → Option (List Json)
  | .array items => some items
  | _ => none

/-! ### Properties -/

inductive PropertyType where
  | text | number | bool | date | datetime | select | multiSelect | url | relation
deriving DecidableEq

namespace PropertyType

def isOrdered : PropertyType → Bool
  | .number | .date | .datetime => true
  | _ => false

def supportsContains : PropertyType → Bool
  | .number | .bool => false
  | _ => true

def supportsLinksTo : PropertyType → Bool
  | .relation => true
  | _ => false

def supportsRelativeDate : PropertyType → Bool
  | .date | .datetime => true
  | _ => false

def supportsAffix : PropertyType → Bool
  | .text | .url => true
  | _ => false

/-- The types whose `contains` is exact membership rather than a substring test. -/
def isCategorical : PropertyType → Bool
  | .multiSelect | .select | .relation => true
  | _ => false

end PropertyType

structure PropertyDefinition where
  propertyType : PropertyType
  options : List String
deriving DecidableEq

def builtinProperties : List (String × PropertyDefinition) :=
  [("occurred_at", ⟨.datetime, []⟩), ("attendees", ⟨.relation, []⟩)]

def builtinProperty (key : String) : Option PropertyDefinition := builtinProperties.lookup key

structure BaseDefinition where
  properties : List (String × PropertyDefinition)

def BaseDefinition.declaredProperty (base : BaseDefinition) (key : String) :
    Option PropertyDefinition :=
  base.properties.lookup key

def BaseDefinition.property (base : BaseDefinition) (key : String) : Option PropertyDefinition :=
  (base.declaredProperty key).or (builtinProperty key)

/-! ### Filters -/

inductive Op where
  | eq | ne | lt | lte | gt | gte | contains | notContains | startsWith | endsWith | isIn
  | linksTo | isEmpty | notEmpty | isToday | isThisWeek | isPastWeek | isNextWeek | isThisMonth
deriving DecidableEq

namespace Op

def isRelativeDate : Op → Bool
  | .isToday | .isThisWeek | .isPastWeek | .isNextWeek | .isThisMonth => true
  | _ => false

def isAffix : Op → Bool
  | .startsWith | .endsWith => true
  | _ => false

def isValueless : Op → Bool
  | .isEmpty | .notEmpty => true
  | op => op.isRelativeDate

end Op

inductive Filter where
  | all (children : List Filter)
  | any (children : List Filter)
  | not (child : Filter)
  | cmp (field : String) (op : Op) (value : Json)

/-- The half-open window of a relative-date operator. -/
def relativeDateWindow (op : Op) (today : NaiveDate) : Option (NaiveDate × NaiveDate) :=
  match op with
  | .isToday => some (today, today.plusDays 1)
  | .isThisWeek =>
    let monday := today.minusDays today.daysFromMonday
    some (monday, monday.plusDays 7)
  | .isPastWeek => some (today.minusDays 7, today.plusDays 1)
  | .isNextWeek => some (today.plusDays 1, today.plusDays 8)
  | .isThisMonth => some (today.firstOfMonth, today.firstOfNextMonth)
  | _ => none

end Clepsydra.Bases
