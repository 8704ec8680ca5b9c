import Clepsydra.Bases.Prepared
import Clepsydra.Bases.QueryAdequacy

/-!
Owns: embedded views: the overrides of a request, their validation, and the composed query.

Proves: accepted overrides never fail to compile.
-/

namespace Clepsydra.Bases

open Library Library.Sqlite Vault List

/-! ### Requests -/

def maxFilterDepth : Nat := 8

def maxFilterNodes : Nat := 64

def maxLogicalChildren : Nat := 32

def maxInValues : Nat := 100

def maxSortKeys : Nat := 8

def maxFieldBytes : Nat := 256

def maxScalarStringBytes : Nat := 4 * 1024

def minLimit : Nat := 1

def maxLimit : Nat := 200

def embedWindowRows : Nat := 50

structure EmbedOverrides where
  filter : Option Filter
  sort : Option (List SortKey)
  limit : Option Nat
  groupBy : Option String

inductive GroupOverride where
  | flat
  | by (field : String)

def groupOverride : Option String → Option GroupOverride
  | none => none
  | some field => if field = "" then some .flat else some (.by field)

structure EmbedValidationDiagnostic where
  field : Option String
  filterPath : Option String
  message : String

structure ViewDefinition where
  filter : Option Filter
  sort : List SortKey
  groupBy : Option String
  aggregates : List Aggregate
  colorRules : List ColorRule
  metrics : List MetricDefinition
  columns : List String

structure BaseFile where
  definition : BaseDefinition
  filter : Option Filter

/-- `composed_query_spec`. -/
def composedQuerySpec (base : BaseFile) (view : ViewDefinition) (filter : Option Filter)
    (sort : Option (List SortKey)) (limit : Option Nat) (groupBy : Option GroupOverride) :
    QuerySpec where
  filter :=
    match base.filter.toList ++ view.filter.toList ++ filter.toList with
    | [] => none
    | [only] => some only
    | filters => some (.all filters)
  q := none
  searchColumns := none
  sort := sort.getD view.sort
  groupBy :=
    match groupBy with
    | some .flat => none
    | some (.by field) => some field
    | none => view.groupBy
  aggregates := view.aggregates
  colorRules := view.colorRules
  metrics := view.metrics
  columns := view.columns
  limit := some (limit.getD embedWindowRows)
  offset := 0
  groupRowLimit := .limit (limit.getD embedWindowRows)

/-! ### Sizes -/

/-- `canonical_field_hint`. -/
def canonicalFieldHint (field : String) : String :=
  ((stripStart "sys." field).or (stripStart "prop." field)).getD field

def validateFieldSize (field : String) (filterPath : Option String) :
    List EmbedValidationDiagnostic :=
  if field.utf8ByteSize > maxFieldBytes then
    [{ field := some (canonicalFieldHint field)
       filterPath
       message := "field identifier is " ++ toString field.utf8ByteSize ++ " UTF-8 bytes; maximum is "
        ++ toString maxFieldBytes }]
  else []

mutual

/-- `validate_string_sizes`: the stack is taken from its end, so the last item comes first. -/
def validateStringSizes (field filterPath : String) : Json → List EmbedValidationDiagnostic
  | .string value =>
    if value.utf8ByteSize > maxScalarStringBytes then
      [{ field := some field
         filterPath := some filterPath
         message := "string value is " ++ toString value.utf8ByteSize
          ++ " UTF-8 bytes; maximum is " ++ toString maxScalarStringBytes }]
    else []
  | .array items => itemStringSizes field filterPath items
  | .object entries => entryStringSizes field filterPath entries
  | _ => []

def itemStringSizes (field filterPath : String) : List Json → List EmbedValidationDiagnostic
  | [] => []
  | item :: rest =>
    itemStringSizes field filterPath rest ++ validateStringSizes field filterPath item

def entryStringSizes (field filterPath : String) :
    List (String × Json) → List EmbedValidationDiagnostic
  | [] => []
  | (_, value) :: rest =>
    entryStringSizes field filterPath rest ++ validateStringSizes field filterPath value

end

def comparisonSizes (field : String) (op : Op) (value : Json) (path : String) :
    List EmbedValidationDiagnostic :=
  let candidates := (value.asArray.getD []).length
  validateFieldSize field (some (path ++ ".field")) ++
    (if op = .isIn ∧ candidates > maxInValues then
      [{ field := some (canonicalFieldHint field)
         filterPath := some (path ++ ".value")
         message := "`in` value has " ++ toString candidates ++ " items; maximum is "
          ++ toString maxInValues }]
    else []) ++
    validateStringSizes (canonicalFieldHint field) (path ++ ".value") value

def childrenAt (depth : Nat) (path segment : String) (children : List Filter) :
    List (Filter × Nat × String) :=
  children.zipIdx.map fun child =>
    (child.1, depth + 1, path ++ "." ++ segment ++ "[" ++ toString child.2 ++ "]")

def visitNode (filter : Filter) (depth : Nat) (path : String) :
    List EmbedValidationDiagnostic × List (Filter × Nat × String) :=
  let group (segment : String) (children : List Filter) :=
    if children.length > maxLogicalChildren then
      ([{ field := none
          filterPath := some path
          message := "filter group has " ++ toString children.length ++ " children; maximum is "
            ++ toString maxLogicalChildren }], [])
    else ([], childrenAt depth path segment children)
  if depth > maxFilterDepth then
    ([{ field := none
        filterPath := some path
        message := "filter depth " ++ toString depth ++ " exceeds maximum of "
          ++ toString maxFilterDepth }], [])
  else
    match filter with
    | .all children => group "all" children
    | .any children => group "any" children
    | .not child => ([], [(child, depth + 1, path ++ ".not")])
    | .cmp field op value => (comparisonSizes field op value path, [])

def visitNodes : Nat → List (Filter × Nat × String) → List EmbedValidationDiagnostic
  | _, [] => []
  | 0, _ :: _ =>
    [{ field := none
       filterPath := some "filter"
       message := "filter has " ++ toString (maxFilterNodes + 1) ++ " nodes; maximum is "
        ++ toString maxFilterNodes }]
  | remaining + 1, (filter, depth, path) :: stack =>
    let visited := visitNode filter depth path
    visited.1 ++ visitNodes remaining (visited.2 ++ stack)

def validateComplexity (overrides : EmbedOverrides) : List EmbedValidationDiagnostic :=
  (match overrides.limit with
    | some limit =>
      if minLimit ≤ limit ∧ limit ≤ maxLimit then []
      else [⟨some "limit", none, "limit must be between 1 and 200"⟩]
    | none => []) ++
  (match overrides.sort with
    | some sort =>
      (if sort.length > maxSortKeys then
        [{ field := some "sort"
           filterPath := none
           message := "sort has " ++ toString sort.length ++ " keys; maximum is "
            ++ toString maxSortKeys }]
      else []) ++ sort.flatMap fun key => validateFieldSize key.field none
    | none => []) ++
  (match overrides.filter with
    | some root => visitNodes maxFilterNodes [(root, 1, "filter")]
    | none => [])

/-! ### Meaning -/

def Op.asStr : Op → String
  | .eq => "eq"
  | .ne => "ne"
  | .lt => "lt"
  | .lte => "lte"
  | .gt => "gt"
  | .gte => "gte"
  | .contains => "contains"
  | .notContains => "not_contains"
  | .startsWith => "starts_with"
  | .endsWith => "ends_with"
  | .isIn => "in"
  | .linksTo => "links_to"
  | .isEmpty => "is_empty"
  | .notEmpty => "not_empty"
  | .isToday => "is_today"
  | .isThisWeek => "is_this_week"
  | .isPastWeek => "is_past_week"
  | .isNextWeek => "is_next_week"
  | .isThisMonth => "is_this_month"

def QueryError.toText : QueryError → String
  | .unknownSystemField name => "unknown system field `" ++ name ++ "`"
  | .projectionOnlyBody =>
    "`body` is projection-only and cannot be used as a filter, sort key, group, or aggregate"
  | .invalidOp field op => "op `" ++ op.asStr ++ "` is not valid for field `" ++ field ++ "`"
  | .invalidValue field reason => "invalid value for field `" ++ field ++ "`: " ++ reason

def PropertyType.variantName : PropertyType → String
  | .text => "Text"
  | .number => "Number"
  | .bool => "Bool"
  | .date => "Date"
  | .datetime => "Datetime"
  | .select => "Select"
  | .multiSelect => "MultiSelect"
  | .url => "Url"
  | .relation => "Relation"

def ResolvedField.name : ResolvedField → String
  | .sys field => field.asStr
  | .prop key _ => key

def ResolvedField.propertyType : ResolvedField → PropertyType
  | .sys field => field.propertyType
  | .prop _ type => type

/-- `resolve_declared_field`. The date plays no part in it. -/
def resolveDeclaredField (base : BaseDefinition) (today : NaiveDate) (field : String) :
    Except String ResolvedField :=
  match resolveField field (.forBase base today) with
  | .error error => .error error.toText
  | .ok (.sys sys) => .ok (.sys sys)
  | .ok (.prop key type) =>
    if (base.property key).isNone then
      if (stripStart "prop." field).isSome then
        .error ("unknown property field `" ++ key ++ "`")
      else .error ("unknown field `" ++ key ++ "`")
    else .ok (.prop key type)

def SysField.supportsOperator (sys : SysField) (op : Op) : Bool :=
  match op with
  | .linksTo => false
  | .contains | .notContains => sys.supportsContains
  | .isToday | .isThisWeek | .isPastWeek | .isNextWeek | .isThisMonth => sys.supportsRelativeDate
  | .startsWith | .endsWith => sys.supportsAffix
  | .lt | .lte | .gt | .gte => sys.propertyType != .bool
  | _ => true

def PropertyType.supportsOperator (type : PropertyType) (op : Op) : Bool :=
  match op with
  | .linksTo => type.supportsLinksTo
  | .contains | .notContains => type.supportsContains
  | .isToday | .isThisWeek | .isPastWeek | .isNextWeek | .isThisMonth => type.supportsRelativeDate
  | .startsWith | .endsWith => type.supportsAffix
  | .lt | .lte | .gt | .gte => type.isOrdered
  | _ => true

def supportsOperator : ResolvedField → Op → Bool
  | .sys .tags, op | .sys .aliases, op =>
    op ∈ [.eq, .ne, .contains, .notContains, .isIn, .isEmpty, .notEmpty]
  | .sys sys, op => sys.supportsOperator op
  | .prop _ type, op => type.supportsOperator op

def scalarTypeError (type : PropertyType) (value : Json) : Option String :=
  match type, value with
  | .number, .number _ => none
  | .number, _ => some "expected a number"
  | .bool, .bool _ => none
  | .bool, _ => some "expected a boolean"
  | _, .string _ => none
  | _, _ => some "expected a string"

def valueErrors (resolved : ResolvedField) (op : Op) (value : Json) : List String :=
  let invalid (reason : String) := "invalid value for field `" ++ resolved.name ++ "`: " ++ reason
  if op.isValueless then
    if value.isNull then [] else ["op `" ++ op.asStr ++ "` does not accept a value"]
  else
    match op with
    | .linksTo => if value.asString.isSome then [] else ["op `links_to` expects a string target"]
    | .isIn =>
      match value.asArray with
      | none => ["op `in` expects an array"]
      | some items =>
        (items.filterMap (scalarTypeError resolved.propertyType)).map invalid
    | _ => (scalarTypeError resolved.propertyType value).toList.map invalid

def validateComparison (base : BaseDefinition) (today : NaiveDate) (field : String) (op : Op)
    (value : Json) (path : String) : List EmbedValidationDiagnostic :=
  match resolveDeclaredField base today field with
  | .error message => [⟨some (canonicalFieldHint field), some (path ++ ".field"), message⟩]
  | .ok resolved =>
    if supportsOperator resolved op then
      (valueErrors resolved op value).map fun message =>
        ⟨some resolved.name, some (path ++ ".value"), message⟩
    else
      [⟨some resolved.name, some (path ++ ".op"),
        "op `" ++ op.asStr ++ "` is not valid for field `" ++ resolved.name ++ "`"⟩]

mutual

def validateFilterSemantics (base : BaseDefinition) (today : NaiveDate) (path : String) :
    Filter → List EmbedValidationDiagnostic
  | .all children => validateChildren base today (path ++ ".all[") 0 children
  | .any children => validateChildren base today (path ++ ".any[") 0 children
  | .not child => validateFilterSemantics base today (path ++ ".not") child
  | .cmp field op value => validateComparison base today field op value path

def validateChildren (base : BaseDefinition) (today : NaiveDate) (path : String) (index : Nat) :
    List Filter → List EmbedValidationDiagnostic
  | [] => []
  | child :: rest =>
    validateFilterSemantics base today (path ++ toString index ++ "]") child ++
      validateChildren base today path (index + 1) rest

end

def sortKeyErrors : ResolvedField → List String
  | .sys sys =>
    if sys.isScalarSortable then []
    else ["system field `" ++ sys.asStr ++ "` is not scalar-sortable"]
  | .prop key type =>
    if type.isScalarSortable then []
    else ["property `" ++ key ++ "` (" ++ type.variantName ++ ") is not scalar-sortable"]

/-- The sort keys in turn; `seen` are the fields of those before. -/
def validateSortSemantics (base : BaseDefinition) (today : NaiveDate) (seen : List ResolvedField) :
    List SortKey → List EmbedValidationDiagnostic
  | [] => []
  | key :: rest =>
    match resolveDeclaredField base today key.field with
    | .error message =>
      ⟨some (canonicalFieldHint key.field), none, message⟩ ::
        validateSortSemantics base today seen rest
    | .ok resolved =>
      if resolved ∈ seen then
        ⟨some resolved.name, none, "duplicate canonical sort field `" ++ resolved.name ++ "`"⟩ ::
          validateSortSemantics base today seen rest
      else
        (sortKeyErrors resolved).map (fun message => ⟨some resolved.name, none, message⟩) ++
          validateSortSemantics base today (seen ++ [resolved]) rest

def validateGroupSemantics (base : BaseDefinition) (today : NaiveDate) (groupBy : String) :
    List EmbedValidationDiagnostic :=
  match resolveDeclaredField base today groupBy with
  | .error message => [⟨some "group_by", none, message⟩]
  | .ok resolved =>
    if isGroupable resolved then []
    else [⟨some "group_by", none, "field `" ++ groupBy ++ "` cannot group"⟩]

/-- `validate_embed_overrides`: sizes first, and nothing else when one is too large. -/
def validateEmbedOverrides (base : BaseDefinition) (today : NaiveDate)
    (overrides : EmbedOverrides) : Except (List EmbedValidationDiagnostic) Unit :=
  let complexity := validateComplexity overrides
  if ¬complexity.isEmpty then .error complexity
  else
    let diagnostics :=
      (overrides.filter.toList.flatMap (validateFilterSemantics base today "filter")) ++
        (overrides.sort.toList.flatMap (validateSortSemantics base today [])) ++
        ((overrides.groupBy.filter fun field => field ≠ "").toList.flatMap
          (validateGroupSemantics base today))
    if diagnostics.isEmpty then .ok () else .error diagnostics

/-! ### Accepted comparisons compile -/

section Comparisons

variable {unicode : Unicode} {field key : String} {type : PropertyType} {op : Op} {value : Json}
  {today : NaiveDate}

theorem string_of_scalarTypeError (contains : type.supportsContains = true)
    (typed : scalarTypeError type value = none) : ∃ text, value = .string text := by
  cases value with
  | string text => exact ⟨text, rfl⟩
  | null | bool _ | number _ | array _ | object _ =>
    cases type <;> contradiction

theorem bindValue_string (contains : type.supportsContains = true) (text : String) :
    bindValue field type (.string text) = .ok (.text text) := by
  cases type <;> first | rfl | contradiction

theorem bindValue_of_scalarTypeError (typed : scalarTypeError type value = none) :
    ∃ param, bindValue field type value = .ok param := by
  by_cases contains : type.supportsContains = true
  · obtain ⟨text, rfl⟩ := string_of_scalarTypeError contains typed
    exact ⟨.text text, bindValue_string contains text⟩
  · cases type with
    | number =>
      cases value with
      | number number => exact ⟨_, rfl⟩
      | _ => exact nomatch typed
    | bool =>
      cases value with
      | bool value => exact ⟨_, rfl⟩
      | _ => exact nomatch typed
    | text | date | datetime | select | multiSelect | url | relation => exact absurd rfl contains

theorem bindLiteral_of_scalarTypeError {bound : PropertyType} (contains : type.supportsContains = true)
    (boundContains : bound.supportsContains = true) (typed : scalarTypeError type value = none) :
    ∃ param, bindLiteralContainsValue field bound op value = .ok param := by
  obtain ⟨text, rfl⟩ := string_of_scalarTypeError contains typed
  refine ⟨.text (String.ofList (escapeLike text.toList)), ?_⟩
  unfold bindLiteralContainsValue
  rw [bindValue_string boundContains]
  rfl

theorem membershipText_of_scalarTypeError {toParam : String → String}
    (typed : scalarTypeError .text value = none) :
    ∃ param, membershipText field toParam value = .ok param := by
  obtain ⟨text, rfl⟩ := string_of_scalarTypeError rfl typed
  exact ⟨.text (toParam text), rfl⟩

theorem bindItems_of_forall {bindItem : Json → Except QueryError Value} {items : List Json}
    (each : ∀ item ∈ items, ∃ param, bindItem item = .ok param) :
    ∃ params, bindItems bindItem items = .ok params := by
  induction items with
  | nil => exact ⟨[], rfl⟩
  | cons item items ih =>
    have ⟨head, boundHead⟩ := each item mem_cons_self
    have ⟨tail, boundTail⟩ := ih fun other among => each other (mem_cons_of_mem _ among)
    refine ⟨head :: tail, ?_⟩
    rw [bindItems, boundHead, boundTail]
    rfl

def Fits (type : PropertyType) (op : Op) (value : Json) : Prop :=
  if op.isValueless then True
  else
    match op with
    | .linksTo => ∃ text, value = .string text
    | .isIn => ∃ items, value = .array items ∧ ∀ item ∈ items, scalarTypeError type item = none
    | _ => scalarTypeError type value = none

theorem fits_of_valueErrors {resolved : ResolvedField}
    (accepted : valueErrors resolved op value = []) : Fits resolved.propertyType op value := by
  unfold valueErrors at accepted
  unfold Fits
  by_cases valueless : op.isValueless = true
  · rw [if_pos valueless]
    trivial
  · rw [if_neg valueless] at accepted ⊢
    have scalar : (scalarTypeError resolved.propertyType value).toList.map
        (fun reason => "invalid value for field `" ++ resolved.name ++ "`: " ++ reason) = [] →
        scalarTypeError resolved.propertyType value = none := by
      intro none
      simpa using none
    cases op with
    | linksTo =>
      cases value with
      | string text => exact ⟨text, rfl⟩
      | null | bool _ | number _ | array _ | object _ => exact nomatch accepted
    | isIn =>
      cases value with
      | array items =>
        refine ⟨items, rfl, fun item among => ?_⟩
        have clean := map_eq_nil_iff.1 accepted
        exact filterMap_eq_nil_iff.1 clean item among
      | null | bool _ | number _ | string _ | object _ => exact nomatch accepted
    | isEmpty | notEmpty | isToday | isThisWeek | isPastWeek | isNextWeek | isThisMonth =>
      exact absurd rfl valueless
    | eq | ne | lt | lte | gt | gte | contains | notContains | startsWith | endsWith =>
      exact scalar accepted

theorem compileMembership_of_fits {source : Membership} {toParam : String → String}
    (supported : op ∈ [Op.eq, .ne, .contains, .notContains, .isIn, .isEmpty, .notEmpty])
    (fits : Fits .text op value) :
    ∃ compiled, compileMembership field op value source toParam = .ok compiled := by
  cases op with
  | isEmpty | notEmpty => exact ⟨_, rfl⟩
  | isIn =>
    obtain ⟨items, rfl, typed⟩ := fits
    have bindable : ∃ params, bindItems (membershipText field toParam) items = .ok params :=
      bindItems_of_forall fun item among => membershipText_of_scalarTypeError (typed item among)
    have ⟨params, bound⟩ := bindable
    exact ⟨_, Fallible.bind_of_eq_ok bound⟩
  | eq | ne | contains | notContains =>
    have bindable : ∃ param, membershipText field toParam value = .ok param :=
      membershipText_of_scalarTypeError fits
    have ⟨param, bound⟩ := bindable
    exact ⟨_, by simp only [compileMembership, bound]; rfl⟩
  | _ => exact absurd supported (by decide)

theorem PropertyType.supportsContains_of_supportsAffix (affix : type.supportsAffix = true) :
    type.supportsContains = true := by
  cases type <;> first | rfl | contradiction

theorem bindItems_of_typed {items : List Json}
    (typed : ∀ item ∈ items, scalarTypeError type item = none) :
    ∃ params, bindItems (bindValue field type) items = .ok params :=
  bindItems_of_forall fun item among => bindValue_of_scalarTypeError (typed item among)

theorem compileScalarLike_of_fits {clause : QueryTemplate} {supported : Bool}
    (allowed : supported = true) (contains : type.supportsContains = true)
    (typed : scalarTypeError type value = none) :
    ∃ compiled, compileScalarLike field supported op value clause = .ok compiled := by
  have bindable : ∃ param, bindLiteralContainsValue field .text op value = .ok param :=
    bindLiteral_of_scalarTypeError contains rfl typed
  have ⟨param, bound⟩ := bindable
  refine ⟨⟨clause, [param]⟩, ?_⟩
  rw [compileScalarLike, if_pos allowed, bound]
  rfl

theorem compileScalar_of_fits {sys : SysField} {column : Column}
    (supported : sys.supportsOperator op = true) (fits : Fits sys.propertyType op value) :
    ∃ compiled, compileScalar field sys column op value today = .ok compiled := by
  cases op with
  | isEmpty | notEmpty => exact ⟨_, rfl⟩
  | linksTo => cases supported
  | isIn =>
    obtain ⟨items, rfl, typed⟩ := fits
    have bindable : ∃ params, bindItems (bindValue field sys.propertyType) items = .ok params :=
      bindItems_of_typed typed
    obtain ⟨params, bound⟩ := bindable
    exact ⟨_, Fallible.bind_of_eq_ok bound⟩
  | contains | notContains => exact compileScalarLike_of_fits supported supported fits
  | startsWith | endsWith =>
    refine compileScalarLike_of_fits supported ?_ fits
    have typed := (Bool.and_eq_true _ _ ▸ supported).2
    rw [eq_of_beq typed]
    rfl
  | isToday | isThisWeek | isPastWeek | isNextWeek | isThisMonth =>
    have relative : sys.supportsRelativeDate = true := supported
    exact ⟨_, by simp only [compileScalar, relative]; rfl⟩
  | eq | ne | lt | lte | gt | gte =>
    have bindable : ∃ param, bindValue field sys.propertyType value = .ok param :=
      bindValue_of_scalarTypeError fits
    obtain ⟨param, bound⟩ := bindable
    exact ⟨_, by simp only [compileScalar, sqlOp, bound]; rfl⟩

theorem compileContains_of_fits (supported : type.supportsContains = true)
    (typed : scalarTypeError type value = none) :
    ∃ test, compileContains field type op value = .ok test := by
  unfold compileContains
  rw [if_pos supported]
  by_cases categorical : type.isCategorical = true
  · have bindable : ∃ param, bindValue field type value = .ok param :=
      bindValue_of_scalarTypeError typed
    have ⟨param, bound⟩ := bindable
    rw [if_pos categorical, bound]
    exact ⟨_, rfl⟩
  · have bindable : ∃ param, bindLiteralContainsValue field type op value = .ok param :=
      bindLiteral_of_scalarTypeError supported supported typed
    have ⟨param, bound⟩ := bindable
    rw [if_neg categorical, bound]
    exact ⟨_, rfl⟩

theorem compileProp_of_fits (supported : type.supportsOperator op = true)
    (fits : Fits type op value) :
    ∃ compiled, compileProp unicode field key type op value today = .ok compiled := by
  cases op with
  | isEmpty | notEmpty => exact ⟨_, rfl⟩
  | linksTo =>
    have links : type.supportsLinksTo = true := supported
    obtain ⟨text, rfl⟩ := fits
    exact ⟨_, by simp only [compileProp, links, if_true]; rfl⟩
  | isIn =>
    obtain ⟨items, rfl, typed⟩ := fits
    have bindable : ∃ params, bindItems (bindValue field type) items = .ok params :=
      bindItems_of_typed typed
    obtain ⟨params, bound⟩ := bindable
    exact ⟨_, Fallible.bind_of_eq_ok bound⟩
  | contains =>
    have testable : ∃ test, compileContains field type .contains value = .ok test :=
      compileContains_of_fits supported fits
    obtain ⟨test, compiled⟩ := testable
    exact ⟨_, by simp only [compileProp, compiled]; rfl⟩
  | notContains =>
    have testable : ∃ test, compileContains field type .notContains value = .ok test :=
      compileContains_of_fits supported fits
    obtain ⟨test, compiled⟩ := testable
    exact ⟨_, by simp only [compileProp, compiled]; rfl⟩
  | startsWith =>
    have affix : type.supportsAffix = true := supported
    have contains := PropertyType.supportsContains_of_supportsAffix affix
    have bindable : ∃ param, bindLiteralContainsValue field type .startsWith value = .ok param :=
      bindLiteral_of_scalarTypeError contains contains fits
    obtain ⟨param, bound⟩ := bindable
    exact ⟨_, by simp only [compileProp, affix, if_true, bound]; rfl⟩
  | endsWith =>
    have affix : type.supportsAffix = true := supported
    have contains := PropertyType.supportsContains_of_supportsAffix affix
    have bindable : ∃ param, bindLiteralContainsValue field type .endsWith value = .ok param :=
      bindLiteral_of_scalarTypeError contains contains fits
    obtain ⟨param, bound⟩ := bindable
    exact ⟨_, by simp only [compileProp, affix, if_true, bound]; rfl⟩
  | isToday | isThisWeek | isPastWeek | isNextWeek | isThisMonth =>
    have relative : type.supportsRelativeDate = true := supported
    exact ⟨_, by simp only [compileProp, relative]; rfl⟩
  | eq | ne | lt | lte | gt | gte =>
    have bindable : ∃ param, bindValue field type value = .ok param :=
      bindValue_of_scalarTypeError fits
    obtain ⟨param, bound⟩ := bindable
    exact ⟨_, by simp only [compileProp, sqlOp, bound]; rfl⟩

theorem resolveField_of_declared {base : BaseDefinition} {resolved : ResolvedField}
    (declared : resolveDeclaredField base today field = .ok resolved) :
    resolveField field (.forBase base today) = .ok resolved := by
  unfold resolveDeclaredField at declared
  cases found : resolveField field (.forBase base today) with
  | error error =>
    rw [found] at declared
    exact nomatch declared
  | ok other =>
    rw [found] at declared
    cases other with
    | sys sys => exact congrArg Except.ok (Except.ok.inj declared)
    | prop key type =>
      dsimp only at declared
      split_ifs at declared
      exact congrArg Except.ok (Except.ok.inj declared)

theorem accepted_of_validateComparison {base : BaseDefinition} {path : String}
    (accepted : validateComparison base today field op value path = []) :
    ∃ resolved, resolveField field (.forBase base today) = .ok resolved
      ∧ supportsOperator resolved op = true ∧ Fits resolved.propertyType op value := by
  unfold validateComparison at accepted
  cases declared : resolveDeclaredField base today field with
  | error message =>
    rw [declared] at accepted
    exact nomatch accepted
  | ok resolved =>
    simp only [declared] at accepted
    by_cases supported : supportsOperator resolved op = true
    · rw [if_pos supported] at accepted
      exact ⟨resolved, resolveField_of_declared declared, supported,
        fits_of_valueErrors (map_eq_nil_iff.1 accepted)⟩
    · rw [if_neg supported] at accepted
      exact nomatch accepted

theorem compileCmp_of_accepted {base : BaseDefinition} {path : String}
    (accepted : validateComparison base today field op value path = []) :
    ∃ compiled, compileCmp unicode field op value (.forBase base today) = .ok compiled := by
  have ⟨resolved, resolves, supported, fits⟩ := accepted_of_validateComparison accepted
  unfold compileCmp
  rw [resolves]
  cases resolved with
  | prop key type => exact compileProp_of_fits supported fits
  | sys sys =>
    cases sys with
    | tags => exact compileMembership_of_fits (of_decide_eq_true supported) fits
    | aliases => exact compileMembership_of_fits (of_decide_eq_true supported) fits
    | id | path | title | kind | project | createdAt | updatedAt | encryption | journalDate
    | wordCount =>
      show ∃ compiled, compileScalar field _ _ op value today = .ok compiled
      exact compileScalar_of_fits supported fits

end Comparisons

/-! ### Accepted filters compile -/

section Filters

variable {unicode : Unicode} {base : BaseDefinition} {today : NaiveDate}

mutual

theorem compileFilter_of_accepted :
    ∀ {filter : Filter} {path : String}, validateFilterSemantics base today path filter = [] →
      ∃ compiled, compileFilter unicode (.forBase base today) filter = .ok compiled
  | .all children, path, accepted => by
    have compiles : ∃ parts, compileChildren unicode (.forBase base today) children = .ok parts :=
      compileChildren_of_accepted accepted
    have ⟨parts, compiled⟩ := compiles
    cases children with
    | nil => exact ⟨_, rfl⟩
    | cons child children => exact ⟨_, by simp only [compileFilter, compiled]; rfl⟩
  | .any children, path, accepted => by
    have compiles : ∃ parts, compileChildren unicode (.forBase base today) children = .ok parts :=
      compileChildren_of_accepted accepted
    have ⟨parts, compiled⟩ := compiles
    cases children with
    | nil => exact ⟨_, rfl⟩
    | cons child children => exact ⟨_, by simp only [compileFilter, compiled]; rfl⟩
  | .not child, path, accepted => by
    have compiles : ∃ inner, compileFilter unicode (.forBase base today) child = .ok inner :=
      compileFilter_of_accepted accepted
    have ⟨inner, compiled⟩ := compiles
    exact ⟨_, by simp only [compileFilter, compiled]; rfl⟩
  | .cmp field op value, path, accepted => compileCmp_of_accepted accepted

theorem compileChildren_of_accepted : ∀ {children : List Filter} {path : String} {index : Nat},
      validateChildren base today path index children = [] →
      ∃ parts, compileChildren unicode (.forBase base today) children = .ok parts
  | [], path, index, accepted => ⟨_, rfl⟩
  | child :: children, path, index, accepted => by
    have both := append_eq_nil_iff.1 accepted
    have first : ∃ head, compileFilter unicode (.forBase base today) child = .ok head :=
      compileFilter_of_accepted both.1
    have others : ∃ tail, compileChildren unicode (.forBase base today) children = .ok tail :=
      compileChildren_of_accepted both.2
    have ⟨head, compiledHead⟩ := first
    have ⟨tail, compiledTail⟩ := others
    exact ⟨_, by simp only [compileChildren, compiledHead, compiledTail]; rfl⟩

end

theorem placeholders_of_compileFilter {ctx : QueryContext} {filter : Filter} {compiled : SqlFilter}
    (compiles : compileFilter unicode ctx filter = .ok compiled) :
    compiled.clause.placeholders = compiled.params.length := by
  obtain ⟨bound, takes, -⟩ := compileFilter_realizes ⟨[], [], [], []⟩
    ⟨"", "", none, "", none, none, none, false, none, none⟩ compiles
  exact takes.length

end Filters

/-! ### Accepted sort lists and group keys -/

section Keys

variable {base : BaseDefinition} {today : NaiveDate}

theorem prepareSortKey_of_resolves {ctx : QueryContext} {key : SortKey} {resolved : ResolvedField}
    (resolves : resolveField key.field ctx = .ok resolved) (sortable : sortKeyErrors resolved = []) :
    ∃ term, prepareSortKey ctx key = .ok term := by
  unfold prepareSortKey
  rw [Fallible.bind_of_eq_ok resolves]
  cases resolved with
  | sys sys =>
    have scalar : sys.isScalarSortable = true := by
      by_contra refused
      rw [sortKeyErrors, if_neg refused] at sortable
      exact nomatch sortable
    have ⟨column, isColumn⟩ := SysField.column_of_isScalarSortable scalar
    exact ⟨.column column key.dir, by simp only [scalar, isColumn, if_true]⟩
  | prop name type =>
    by_cases relation : type = .relation
    · exact ⟨.relation name key.dir, by simp only [relation, if_true]⟩
    · exact ⟨.property name (typedColumn type) key.dir, by simp only [relation, if_false]⟩

theorem prepareSortKey_of_accepted {sort : List SortKey} {seen : List ResolvedField}
    (accepted : validateSortSemantics base today seen sort = []) :
    ∀ key ∈ sort, ∃ term, prepareSortKey (.forBase base today) key = .ok term := by
  induction sort generalizing seen with
  | nil => exact fun key none => absurd none not_mem_nil
  | cons first rest ih =>
    rw [validateSortSemantics] at accepted
    cases declared : resolveDeclaredField base today first.field with
    | error message =>
      rw [declared] at accepted
      exact nomatch accepted
    | ok resolved =>
      simp only [declared] at accepted
      split_ifs at accepted with repeated
      have ⟨clean, later⟩ := append_eq_nil_iff.1 accepted
      intro key among
      rcases mem_cons.1 among with rfl | among
      · exact prepareSortKey_of_resolves (resolveField_of_declared declared)
          (map_eq_nil_iff.1 clean)
      · exact ih later key among

theorem groupColumn_of_accepted {key : String}
    (accepted : validateGroupSemantics base today key = []) :
    ∃ column, groupColumn (.forBase base today) key = .ok column := by
  rw [groupColumn_isOk_iff]
  unfold validateGroupSemantics at accepted
  cases declared : resolveDeclaredField base today key with
  | error message =>
    rw [declared] at accepted
    exact nomatch accepted
  | ok resolved =>
    simp only [declared] at accepted
    refine ⟨resolved, resolveField_of_declared declared, ?_⟩
    by_contra refused
    rw [if_neg refused] at accepted
    exact nomatch accepted

end Keys

/-! ### Composed queries -/

section Composed

variable {unicode : Unicode} {base : BaseFile} {view : ViewDefinition} {overrides : EmbedOverrides}
  {today : NaiveDate}

def EmbedOverrides.spec (overrides : EmbedOverrides) (base : BaseFile) (view : ViewDefinition) :
    QuerySpec :=
  composedQuerySpec base view overrides.filter overrides.sort overrides.limit
    (groupOverride overrides.groupBy)

theorem parts_of_accepted {definition : BaseDefinition}
    (accepted : validateEmbedOverrides definition today overrides = .ok ()) :
    (∀ filter ∈ overrides.filter, validateFilterSemantics definition today "filter" filter = [])
      ∧ (∀ sort ∈ overrides.sort, validateSortSemantics definition today [] sort = [])
      ∧ ∀ key ∈ overrides.groupBy, key ≠ "" → validateGroupSemantics definition today key = [] := by
  unfold validateEmbedOverrides at accepted
  dsimp only at accepted
  split_ifs at accepted with small clean
  have parts := append_eq_nil_iff.1 (List.isEmpty_iff.1 clean)
  have first := append_eq_nil_iff.1 parts.1
  simp only [flatMap_eq_nil_iff, Option.mem_toList, Option.filter_eq_some_iff] at parts first
  exact ⟨first.1, first.2, fun key given named => parts.2 key ⟨given, by simpa using named⟩⟩

theorem prepare_composed_iff {ctx : QueryContext} :
    (∃ prepared, prepare unicode ctx (overrides.spec base view) = .ok prepared) ↔
      (∃ condition, compileOptional unicode ctx (overrides.spec base view).filter = .ok condition)
        ∧ (∃ order, (overrides.spec base view).sort.mapM (prepareSortKey ctx) = .ok order)
        ∧ ∃ colors, (view.colorRules.mapM fun rule => compileFilter unicode ctx rule.filter)
            = .ok colors := by
  have noSearch : searchClause (overrides.spec base view) ctx = .ok none := rfl
  constructor
  · rintro ⟨prepared, success⟩
    have ⟨condition, conditioned, success⟩ := Fallible.of_bind_ok success
    have ⟨order, ordered, success⟩ := Fallible.of_bind_ok success
    obtain ⟨colors, colored, -⟩ := Fallible.of_bind_ok success
    obtain ⟨compiled, compiles, -⟩ := Fallible.of_bind_ok conditioned
    exact ⟨⟨compiled, compiles⟩, ⟨order, ordered⟩, ⟨colors, colored⟩⟩
  · rintro ⟨⟨compiled, compiles⟩, ⟨order, ordered⟩, ⟨colors, colored⟩⟩
    refine ⟨⟨compiled, order, colors⟩, ?_⟩
    have conditioned : prepareWhere unicode ctx (overrides.spec base view) = .ok compiled := by
      unfold prepareWhere
      rw [Fallible.bind_of_eq_ok compiles, Fallible.bind_of_eq_ok noSearch]
    unfold prepare
    rw [Fallible.bind_of_eq_ok conditioned, Fallible.bind_of_eq_ok ordered]
    exact Fallible.bind_of_eq_ok colored

theorem filter_spec (noBaseFilter : base.filter = none) (noViewFilter : view.filter = none) :
    (overrides.spec base view).filter = overrides.filter := by
  unfold EmbedOverrides.spec composedQuerySpec
  rw [noBaseFilter, noViewFilter]
  cases overrides.filter <;> rfl

theorem compileOptional_of_accepted
    (accepted : validateEmbedOverrides base.definition today overrides = .ok ()) :
    ∃ condition, compileOptional unicode (.forBase base.definition today) overrides.filter
      = .ok condition := by
  cases given : overrides.filter with
  | none => exact ⟨⟨.constant true, []⟩, rfl⟩
  | some filter => exact compileFilter_of_accepted ((parts_of_accepted accepted).1 filter given)

theorem placeholders_of_compileOptional {ctx : QueryContext} {filter : Option Filter}
    {compiled : SqlFilter} (compiles : compileOptional unicode ctx filter = .ok compiled) :
    compiled.clause.placeholders = compiled.params.length := by
  cases filter with
  | none =>
    obtain rfl := Except.ok.inj compiles
    rfl
  | some filter => exact placeholders_of_compileFilter compiles

theorem sort_of_accepted
    (accepted : validateEmbedOverrides base.definition today overrides = .ok ()) :
    (∃ order, (overrides.spec base view).sort.mapM (prepareSortKey (.forBase base.definition today))
        = .ok order) ↔
      (overrides.sort = none →
        ∃ order, view.sort.mapM (prepareSortKey (.forBase base.definition today)) = .ok order) := by
  unfold EmbedOverrides.spec composedQuerySpec
  dsimp only
  cases given : overrides.sort with
  | none => exact ⟨fun ordered _ => ordered, fun ordered => ordered rfl⟩
  | some sort =>
    have sorted := (parts_of_accepted accepted).2.1 sort given
    exact iff_of_true (Fallible.mapM_of_forall (prepareSortKey_of_accepted sorted)) nofun

theorem group_of_accepted
    (accepted : validateEmbedOverrides base.definition today overrides = .ok ()) :
    (∀ key ∈ (overrides.spec base view).groupBy,
        ∃ column, groupColumn (.forBase base.definition today) key = .ok column) ↔
      (overrides.groupBy = none → ∀ key ∈ view.groupBy,
          ∃ column, groupColumn (.forBase base.definition today) key = .ok column) := by
  unfold EmbedOverrides.spec composedQuerySpec
  dsimp only
  cases given : overrides.groupBy with
  | none => exact ⟨fun grouped _ => grouped, fun grouped => grouped rfl⟩
  | some field =>
    refine iff_of_true ?_ nofun
    by_cases named : field = ""
    · rw [groupOverride, if_pos named]
      exact nofun
    · rw [groupOverride, if_neg named]
      intro key same
      obtain rfl := Option.some.inj same
      exact groupColumn_of_accepted ((parts_of_accepted accepted).2.2 _ given named)

/-- A query composed with accepted overrides fails only by what it keeps of the view. -/
theorem accepted_overrides_compile (unicode : Unicode) (base : BaseFile) (view : ViewDefinition)
    (overrides : EmbedOverrides) (today : NaiveDate)
    (accepted : validateEmbedOverrides base.definition today overrides = .ok ())
    (noBaseFilter : base.filter = none) (noViewFilter : view.filter = none) :
    (∃ compiled,
        compileOptional unicode (.forBase base.definition today) (overrides.spec base view).filter
            = .ok compiled
          ∧ compiled.clause.placeholders = compiled.params.length)
      ∧ ((∃ prepared, prepare unicode (.forBase base.definition today) (overrides.spec base view)
              = .ok prepared) ↔
          (overrides.sort = none →
              ∃ order, view.sort.mapM (prepareSortKey (.forBase base.definition today)) = .ok order)
            ∧ ∃ colors, (view.colorRules.mapM fun rule =>
                compileFilter unicode (.forBase base.definition today) rule.filter) = .ok colors)
      ∧ ((∀ key ∈ (overrides.spec base view).groupBy,
            ∃ column, groupColumn (.forBase base.definition today) key = .ok column) ↔
          (overrides.groupBy = none → ∀ key ∈ view.groupBy,
              ∃ column, groupColumn (.forBase base.definition today) key = .ok column)) := by
  have conditioned : ∃ condition,
      compileOptional unicode (.forBase base.definition today) overrides.filter = .ok condition :=
    compileOptional_of_accepted accepted
  rw [prepare_composed_iff, filter_spec noBaseFilter noViewFilter, sort_of_accepted accepted]
  refine ⟨?_, ⟨fun prepared => prepared.2, fun kept => ⟨conditioned, kept⟩⟩,
    group_of_accepted accepted⟩
  have ⟨condition, compiles⟩ := conditioned
  exact ⟨condition, compiles, placeholders_of_compileOptional compiles⟩

end Composed

/-! ### Overrides of one base -/

namespace EmbedSample

def base : BaseFile where
  definition := ⟨[("status", ⟨.text, []⟩)]⟩
  filter := none

def view (sort : List SortKey) : ViewDefinition where
  filter := none
  sort
  groupBy := none
  aggregates := []
  colorRules := []
  metrics := []
  columns := ["title"]

def overrides : EmbedOverrides where
  filter := some (.all
    [.cmp "status" .isIn (.array [.string "open"]), .not (.cmp "tags" .eq (.string "done"))])
  sort := some [⟨"title", .asc⟩]
  limit := none
  groupBy := some "status"

def today : NaiveDate := .newYear

end EmbedSample

/-- The view's own order is by tags, which the override replaces. -/
theorem accepted_overrides_compile_status : (∃ prepared,
        prepare ⟨id, String.toLower⟩ (.forBase EmbedSample.base.definition EmbedSample.today)
          (EmbedSample.overrides.spec EmbedSample.base (EmbedSample.view [⟨"tags", .asc⟩]))
            = .ok prepared)
      ∧ ∀ key ∈
          (EmbedSample.overrides.spec EmbedSample.base (EmbedSample.view [⟨"tags", .asc⟩])).groupBy,
        ∃ column,
          groupColumn (.forBase EmbedSample.base.definition EmbedSample.today) key = .ok column := by
  have compiles := accepted_overrides_compile ⟨id, String.toLower⟩ EmbedSample.base
    (EmbedSample.view [⟨"tags", .asc⟩]) EmbedSample.overrides EmbedSample.today (by rfl) rfl rfl
  exact ⟨compiles.2.1.2 ⟨nofun, [], rfl⟩, compiles.2.2.2 nofun⟩

/-- The order a view was saved with is checked by no request. -/
theorem saved_sort_by_tags_unprepared :
    validateEmbedOverrides EmbedSample.base.definition EmbedSample.today ⟨none, none, none, none⟩
        = .ok ()
      ∧ EmbedSample.base.filter = none
      ∧ (EmbedSample.view [⟨"tags", .asc⟩]).filter = none
      ∧ ¬∃ prepared,
        prepare ⟨id, String.toLower⟩ (.forBase EmbedSample.base.definition EmbedSample.today)
          (EmbedOverrides.spec ⟨none, none, none, none⟩ EmbedSample.base
            (EmbedSample.view [⟨"tags", .asc⟩])) = .ok prepared := by
  refine ⟨rfl, rfl, rfl, fun ⟨prepared, success⟩ => ?_⟩
  have refused : prepare ⟨id, String.toLower⟩
      (.forBase EmbedSample.base.definition EmbedSample.today)
      (EmbedOverrides.spec ⟨none, none, none, none⟩ EmbedSample.base
        (EmbedSample.view [⟨"tags", .asc⟩])) = .error (.invalidOp "tags" .eq) := by
    rfl
  exact nomatch refused.symm.trans success

end Clepsydra.Bases
