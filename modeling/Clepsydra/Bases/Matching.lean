import Clepsydra.Bases.Query
import Clepsydra.Vault.PageKind

/-!
Owns: the evaluation of a filter in memory, on the metadata of a page. The values a field holds,
the literals they are compared with, and every operator.
-/

namespace Clepsydra.Bases

open Vault

/-! ### Numbers -/

inductive Double where
  | finite (value : ℚ)
  | infinite (negative : Bool)
  | nan

/-- `f64::from_bits`. -/
def Double.ofBits (bits : UInt64) : Double :=
  let negative := bits.toNat / 2 ^ 63 = 1
  let exponent : Nat := bits.toNat / 2 ^ 52 % 2 ^ 11
  let fraction : Nat := bits.toNat % 2 ^ 52
  if exponent = 2 ^ 11 - 1 then
    if fraction = 0 then .infinite negative else .nan
  else
    let magnitude : ℚ :=
      if exponent = 0 then (fraction : ℚ) / 2 ^ 1074
      else ((2 ^ 52 + fraction : Nat) : ℚ) * 2 ^ exponent / 2 ^ 1075
    .finite (if negative then -magnitude else magnitude)

/-- `f64::partial_cmp`. -/
def Double.partialCmp : Double → Double → Option Ordering
  | .finite left, .finite right =>
    some (if left < right then .lt else if left = right then .eq else .gt)
  | .infinite left, .infinite right =>
    some (if left = right then .eq else if left then .lt else .gt)
  | .infinite negative, .finite _ => some (if negative then .lt else .gt)
  | .finite _, .infinite negative => some (if negative then .gt else .lt)
  | .nan, _ | _, .nan => none

/-! ### Times -/

/-- A `DateTime<Utc>`: a date and a time of the day. -/
structure Instant where
  date : NaiveDate
  secondOfDay : Nat
  nanosecond : Nat

def formatFraction (nanosecond : Nat) : List Char :=
  if nanosecond = 0 then []
  else if nanosecond % 1000000 = 0 then '.' :: paddedDigits 3 (nanosecond / 1000000)
  else if nanosecond % 1000 = 0 then '.' :: paddedDigits 6 (nanosecond / 1000)
  else '.' :: paddedDigits 9 nanosecond

/-- `to_rfc3339`. -/
def Instant.toRfc3339 (instant : Instant) : String :=
  let second := instant.secondOfDay
  instant.date.format ++ String.ofList
    ('T' :: paddedDigits 2 (second / 3600) ++ ':' :: paddedDigits 2 (second / 60 % 60) ++
      ':' :: paddedDigits 2 (second % 60) ++ formatFraction instant.nanosecond ++
      ['+', '0', '0', ':', '0', '0'])

structure Externals where
  unicode : Unicode
  /-- `NaiveDate::parse_from_str(text, "%Y-%m-%d")`. -/
  parseYmd : String → Option NaiveDate
  /-- `f64::to_string`. -/
  showDouble : Double → String

/-- `text.get(..count)`: the first bytes, if they are whole characters. -/
def firstBytes : Nat → List Char → Option (List Char)
  | 0, _ => some []
  | _ + 1, [] => none
  | count + 1, character :: rest =>
    if character.utf8Size ≤ count + 1 then
      (firstBytes (count + 1 - character.utf8Size) rest).map (character :: ·)
    else none
termination_by _ characters => characters.length

section Matching

variable (externals : Externals)

/-- `date_face`. -/
def dateFace (text : String) : Option NaiveDate :=
  (firstBytes 10 text.toList).bind fun head => externals.parseYmd (String.ofList head)

/-! ### Scalars -/

/-- `Comparable`. -/
inductive Comparable where
  | text (value : String)
  | number (value : Double)
  | bool (value : Bool)

/-- `scalar_ordering`. -/
def scalarOrdering : Comparable → Comparable → Option Ordering
  | .text left, .text right => some (compare left right)
  | .number left, .number right => left.partialCmp right
  | .bool left, .bool right => some (compare left right)
  | _, _ => none

/-- `scalar_equal`. -/
def scalarEqual (left right : Comparable) : Bool := scalarOrdering left right == some .eq

/-- `comparable_sql_text`. -/
def comparableSqlText : Comparable → String
  | .text value => value
  | .number value => externals.showDouble value
  | .bool value => if value then "1" else "0"

def foldedBytes (text : String) : List UInt8 :=
  (text.toList.map Char.toLower).flatMap String.utf8EncodeChar

/-- `sql_contains`. -/
def sqlContains (current expected : Comparable) : Bool :=
  let current := foldedBytes (comparableSqlText externals current)
  let expected := foldedBytes (comparableSqlText externals expected)
  current.tails.any expected.isPrefixOf

/-- `sql_affix`. -/
def sqlAffix (current expected : Comparable) (isPrefix : Bool) : Bool :=
  let current := foldedBytes (comparableSqlText externals current)
  let expected := foldedBytes (comparableSqlText externals expected)
  if isPrefix then expected.isPrefixOf current else expected.isSuffixOf current

/-- `expected_scalar`. -/
def expectedScalar (type : PropertyType) (value : Json) : Option Comparable :=
  match type with
  | .number =>
    match value with
    | .number number => some (.number (.finite number.toDouble))
    | _ => none
  | .bool =>
    match value with
    | .bool value => some (.bool value)
    | _ => none
  | _ =>
    match value with
    | .string value => some (.text value)
    | .number number => some (.text number.toText)
    | .bool value => some (.text (if value then "true" else "false"))
    | _ => none

def expects (type : PropertyType) (value : Json) (test : Comparable → Bool) : Bool :=
  (expectedScalar type value).any test

def orderingAccepts (op : Op) (ordering : Option Ordering) : Bool :=
  match op, ordering with
  | .eq, some .eq => true
  | .ne, some ordering => ordering != .eq
  | .ne, none => true
  | .lt, some .lt => true
  | .lte, some ordering => ordering != .gt
  | .gt, some .gt => true
  | .gte, some ordering => ordering != .lt
  | _, _ => false

def expectedItems (type : PropertyType) (items : List Json) : Option (List Comparable) :=
  items.mapM (expectedScalar type)

/-- `scalar_matches` on a value that is there, for an operator that reads it. -/
def presentMatches (current : Comparable) (type : PropertyType) (op : Op) (value : Json)
    (containsIsMembership : Bool) : Bool :=
  match op with
  | .isIn =>
    match value with
    | .array items => (expectedItems type items).any fun expected =>
      expected.any (scalarEqual current)
    | _ => false
  | .contains =>
    type.supportsContains && expects type value fun expected =>
      if containsIsMembership then scalarEqual current expected
      else sqlContains externals current expected
  | .notContains =>
    type.supportsContains && expects type value fun expected =>
      if containsIsMembership then !scalarEqual current expected
      else !sqlContains externals current expected
  | .startsWith =>
    type.supportsAffix && expects type value fun expected =>
      sqlAffix externals current expected true
  | .endsWith =>
    type.supportsAffix && expects type value fun expected =>
      sqlAffix externals current expected false
  | .linksTo => false
  | op => expects type value fun expected => orderingAccepts op (scalarOrdering current expected)

def absentMatches (type : PropertyType) (op : Op) (value : Json) : Bool :=
  (op == .ne || op == .notContains) && (expectedScalar type value).isSome

/-- `scalar_matches`. -/
def scalarMatches (current : Option Comparable) (type : PropertyType) (op : Op) (value : Json)
    (containsIsMembership : Bool) (today : NaiveDate) : Bool :=
  if op = .isEmpty then current.isNone
  else if op = .notEmpty then current.isSome
  else if op.isRelativeDate then
    type.supportsRelativeDate &&
      match relativeDateWindow op today with
      | none => false
      | some window =>
        (current.bind fun value => dateFace externals (comparableSqlText externals value)).any
          fun day => !day.before window.1 && day.before window.2
  else if (op = .contains ∨ op = .notContains) ∧ !type.supportsContains then false
  else
    match current with
    | none => absentMatches type op value
    | some current => presentMatches externals current type op value containsIsMembership

/-! ### Properties -/

def tomlValueIsEmpty : TomlValue → Bool
  | .string text => text == ""
  | .array items => items.isEmpty
  | _ => false

/-- `current_scalar`. -/
def currentScalar (current : TomlValue) (type : PropertyType) : Option Comparable :=
  match type with
  | .number =>
    match current with
    | .integer number => some (.number (.finite (doubleOfInt number)))
    | .float bits => some (.number (.ofBits bits))
    | _ => none
  | .bool =>
    match current with
    | .boolean flag => some (.bool flag)
    | _ => none
  | .date | .datetime =>
    match current with
    | .datetime text => some (.text text)
    | _ => none
  | _ => current.asStr.map .text

/-- `CandidateLinkTarget`. -/
structure CandidateLinkTarget where
  targetCanonical : String
  targetId : Option String

/-- `property_scalar_matches`. -/
def propertyScalarMatches (current : TomlValue) (type : PropertyType) (op : Op) (value : Json)
    (today : NaiveDate) : Bool :=
  op != .linksTo &&
    scalarMatches externals (currentScalar current type) type op value type.isCategorical today

/-- The test of `links_to`. -/
def linksToMatches (type : PropertyType) (value : Json)
    (linkTargets : Option (List CandidateLinkTarget)) : Bool :=
  type.supportsLinksTo &&
    match value.asString with
    | none => false
    | some expected =>
      let expected := normalizeLinksToTarget externals.unicode expected
      linkTargets.any fun targets => targets.any fun target =>
        target.targetId == some expected.targetId
          || target.targetCanonical == expected.targetCanonical

/-- `property_matches` on a value that is there, by the value or by its items. -/
def presentPropertyMatches (current : TomlValue) (type : PropertyType) (op : Op) (value : Json)
    (today : NaiveDate) : Bool :=
  match current with
  | .array items =>
    match op with
    | .ne => items.all fun item => !propertyScalarMatches externals item type .eq value today
    | .notContains =>
      items.all fun item => !propertyScalarMatches externals item type .contains value today
    | op => items.any fun item => propertyScalarMatches externals item type op value today
  | current => propertyScalarMatches externals current type op value today

/-- `property_matches`. -/
def propertyMatches (current : Option TomlValue) (type : PropertyType) (op : Op) (value : Json)
    (linkTargets : Option (List CandidateLinkTarget)) (today : NaiveDate) : Bool :=
  let current := current.filter fun current => !tomlValueIsEmpty current
  if op = .isEmpty then current.isNone
  else if op = .notEmpty then current.isSome
  else if op = .linksTo then linksToMatches externals type value linkTargets
  else if (op = .contains ∨ op = .notContains) ∧ !type.supportsContains then false
  else
    match current with
    | none => absentMatches type op value
    | some current => presentPropertyMatches externals current type op value today

/-! ### Fields with several values -/

/-- `membership_contains`. -/
def membershipContains (current : List String) (canonicalize : Bool) (expected : String) : Bool :=
  if canonicalize then
    current.any fun item =>
      canonicalName externals.unicode item == canonicalName externals.unicode expected
  else current.any (· == expected)

/-- `membership_matches`. -/
def membershipMatches (current : List String) (op : Op) (value : Json) (canonicalize : Bool) :
    Bool :=
  let contains := membershipContains externals current canonicalize
  match op with
  | .eq | .contains => value.asString.any contains
  | .ne | .notContains => value.asString.any fun expected => !contains expected
  | .isIn =>
    value.asArray.any fun values =>
      values.all (·.asString.isSome) && (values.filterMap Json.asString).any contains
  | .isEmpty => current.isEmpty
  | .notEmpty => !current.isEmpty
  | _ => false

/-! ### Filters -/

/-- `MetaFilterContext`. -/
structure MetaFilterContext where
  base : BaseDefinition
  page : PageMeta Instant TomlValue
  path : String
  wordCount : Option Nat
  journalDate : Option NaiveDate
  linkTargets : Option (List (String × List CandidateLinkTarget))
  today : NaiveDate

/-- `system_match_type`. -/
def systemMatchType (sys : SysField) (op : Op) : PropertyType :=
  if op.isRelativeDate && sys.supportsRelativeDate then
    if sys = .journalDate then .date else .datetime
  else sys.propertyType

/-- `system_scalar`. -/
def systemScalar (sys : SysField) (context : MetaFilterContext) : Option Comparable :=
  match sys with
  | .id => some (.text context.page.id.toText)
  | .path => some (.text context.path)
  | .title => context.page.title.map .text
  | .kind => some (.text (Kind.resolve context.path context.page.kind).1.asStr)
  | .project => context.page.project.map .text
  | .createdAt => context.page.createdAt.map fun value => .text value.toRfc3339
  | .updatedAt => context.page.updatedAt.map fun value => .text value.toRfc3339
  | .encryption => some (.bool context.page.encryption.isSome)
  | .journalDate => context.journalDate.map fun value => .text value.format
  | .wordCount => context.wordCount.map fun value => .number (.finite value)
  | .tags | .aliases => none

def MetaFilterContext.effectiveTags (context : MetaFilterContext) : List String :=
  (Kind.resolve context.path context.page.kind).1.effectiveTags context.page.tags

/-- `cmp_matches_meta`. -/
def cmpMatchesMeta (field : String) (op : Op) (value : Json) (context : MetaFilterContext) : Bool :=
  match resolveField field (.forBase context.base context.today) with
  | .error _ => false
  | .ok (.sys .tags) => membershipMatches externals context.effectiveTags op value false
  | .ok (.sys .aliases) => membershipMatches externals context.page.aliases op value true
  | .ok (.sys sys) =>
    scalarMatches externals (systemScalar sys context) (systemMatchType sys op) op value false
      context.today
  | .ok (.prop key type) =>
    propertyMatches externals (context.page.extra.value key) type op value
      (context.linkTargets.bind fun targets => targets.lookup key) context.today

mutual

/-- `filter_matches_meta`. -/
def filterMatchesMeta (context : MetaFilterContext) : Filter → Bool
  | .all children => everyMatches context children
  | .any children => someMatches context children
  | .not child => !filterMatchesMeta context child
  | .cmp field op value => cmpMatchesMeta externals field op value context

def everyMatches (context : MetaFilterContext) : List Filter → Bool
  | [] => true
  | child :: children => filterMatchesMeta context child && everyMatches context children

def someMatches (context : MetaFilterContext) : List Filter → Bool
  | [] => false
  | child :: children => filterMatchesMeta context child || someMatches context children

end

end Matching

end Clepsydra.Bases
