import Clepsydra.Bases.Query

/-!
Owns: what a compiled clause means on stored rows: the rows, the reading of each comparison, those a
NULL leaves undecided, and the reading of a whole filter.
-/

namespace Clepsydra.Bases

open Library Library.Sqlite Vault List

/-! ### Stored rows -/

/-- A row of `pages`, by its queried columns. -/
structure PageRow where
  id : String
  path : String
  title : Option String
  kind : String
  project : Option String
  createdAt : Option String
  updatedAt : Option String
  encrypted : Bool
  journalDate : Option String
  wordCount : Option Nat

structure TagRow where
  pageId : String
  tag : String

structure NameRow where
  pageId : String
  source : String
  canonicalName : String

structure PropertyRow where
  pageId : String
  key : String
  valueText : Option String
  valueNum : Option ℚ
  valueDate : Option String
  valueBool : Option Bool

structure LinkRow where
  sourceId : String
  sourceField : Option String
  targetId : Option String
  targetCanonical : Option String

structure Tables where
  tags : List TagRow
  names : List NameRow
  properties : List PropertyRow
  links : List LinkRow

def boolValue (value : Bool) : Value := .integer (if value then 1 else 0)

def optionValue {α : Type} (toValue : α → Value) : Option α → Value
  | some value => toValue value
  | none => .null

@[grind =] def PageRow.scope (row : PageRow) : Scope Column
  | .pageId => .text row.id
  | .pagePath => .text row.path
  | .pageTitle => Value.ofText row.title
  | .pageKind => .text row.kind
  | .pageProject => Value.ofText row.project
  | .pageCreatedAt => Value.ofText row.createdAt
  | .pageUpdatedAt => Value.ofText row.updatedAt
  | .pageEncrypted => boolValue row.encrypted
  | .pageJournalDate => Value.ofText row.journalDate
  | .pageWordCount => optionValue (fun count : Nat => .integer count) row.wordCount
  | _ => .null

def TagRow.cells (row : TagRow) : Column → Option Value
  | .tagPageId => some (.text row.pageId)
  | .tagTag => some (.text row.tag)
  | _ => none

def NameRow.cells (row : NameRow) : Column → Option Value
  | .namePageId => some (.text row.pageId)
  | .nameSource => some (.text row.source)
  | .nameCanonicalName => some (.text row.canonicalName)
  | _ => none

def PropertyRow.cells (row : PropertyRow) : Column → Option Value
  | .propertyPageId => some (.text row.pageId)
  | .propertyKey => some (.text row.key)
  | .propertyText => some (Value.ofText row.valueText)
  | .propertyNum => some (optionValue .real row.valueNum)
  | .propertyDate => some (Value.ofText row.valueDate)
  | .propertyBool => some (optionValue boolValue row.valueBool)
  | _ => none

def LinkRow.cells (row : LinkRow) : Column → Option Value
  | .linkSourceId => some (.text row.sourceId)
  | .linkSourceField => some (Value.ofText row.sourceField)
  | .linkTargetId => some (Value.ofText row.targetId)
  | .linkTargetCanonical => some (Value.ofText row.targetCanonical)
  | _ => none

def Tables.database (tables : Tables) : Database Table Column
  | .tags => tables.tags.map TagRow.cells
  | .canonicalNames => tables.names.map NameRow.cells
  | .pageProperties => tables.properties.map PropertyRow.cells
  | .links => tables.links.map LinkRow.cells

/-- Its parameters fill its placeholders and the clause is true. -/
def SqlFilter.selects (compiled : SqlFilter) (tables : Tables) (row : PageRow) : Bool :=
  match compiled.clause.bind compiled.params with
  | some (bound, []) => bound.eval tables.database row.scope == some true
  | _ => false

/-! ### The two-valued reading of a comparison -/

def literalOf (type : PropertyType) (value : Json) : Option Value :=
  (bindValue "" type value).toOption

def literalText (value : Json) : Option String :=
  match literalOf .text value with
  | some (.text text) => some text
  | _ => none

def textTest (test : List Char → List Char → Bool) (value : Json) (cell : Value) : Bool :=
  match literalText value, cell with
  | some needle, .text text => test needle.toList text.toList
  | _, _ => false

def equalsLiteral (type : PropertyType) (cell : Value) (item : Json) : Bool :=
  match literalOf type item with
  | some expected => compareStored cell expected == .eq
  | none => false

/-- The positive tests of one stored cell. `exact` marks the types whose `contains` is membership. -/
@[grind =]
def cellTest (type : PropertyType) (exact : Bool) (op : Op) (value : Json) (today : NaiveDate)
    (cell : Value) : Bool :=
  match op with
  | .eq => equalsLiteral type cell value
  | .lt | .lte | .gt | .gte =>
    match sqlOp op, literalOf type value with
    | some compareOp, some expected => compareOp.accepts (compareStored cell expected)
    | _, _ => false
  | .isIn =>
    match value.asArray with
    | some items => items.any (equalsLiteral type cell)
    | none => false
  | .contains => if exact then equalsLiteral type cell value else textTest containsFolded value cell
  | .startsWith => textTest startsWithFolded value cell
  | .endsWith => textTest endsWithFolded value cell
  | .isToday | .isThisWeek | .isPastWeek | .isNextWeek | .isThisMonth =>
    match relativeDateWindow op today with
    | some window =>
      compareStored cell (.text window.1.format) != .lt
        && compareStored cell (.text window.2.format) == .lt
    | none => false
  | _ => false

def storedTest (type : PropertyType) (exact : Bool) (op : Op) (value : Json) (today : NaiveDate)
    (cell : Value) : Bool :=
  cell != .null && cellTest type exact op value today cell

def scalarHolds (type : PropertyType) (op : Op) (value : Json) (today : NaiveDate) (cell : Value) :
    Bool :=
  match op with
  | .isEmpty => cell == .null
  | .notEmpty => cell != .null
  | .ne => !storedTest type false .eq value today cell
  | .notContains => !storedTest type false .contains value today cell
  | op => storedTest type false op value today cell

def listsLiteral (toParam : String → String) (current : List String) (item : Json) : Bool :=
  match item.asString with
  | some expected => current.any (· == toParam expected)
  | none => false

def membershipHolds (toParam : String → String) (op : Op) (value : Json) (current : List String) :
    Bool :=
  match op with
  | .eq | .contains => listsLiteral toParam current value
  | .ne | .notContains => !listsLiteral toParam current value
  | .isIn =>
    match value.asArray with
    | some items => items.any (listsLiteral toParam current)
    | none => false
  | .isEmpty => current.isEmpty
  | .notEmpty => !current.isEmpty
  | _ => false

def PropertyRow.cell (row : PropertyRow) (type : PropertyType) : Value :=
  (row.cells (typedColumn type)).getD .null

def propHolds (unicode : Unicode) (type : PropertyType) (op : Op) (value : Json)
    (today : NaiveDate) (rows : List PropertyRow) (links : List LinkRow) : Bool :=
  let anyRow := fun op =>
    rows.any fun row => storedTest type type.isCategorical op value today (row.cell type)
  match op with
  | .isEmpty => rows.isEmpty
  | .notEmpty => !rows.isEmpty
  | .ne => !anyRow .eq
  | .notContains => !anyRow .contains
  | .linksTo =>
    match value.asString with
    | some target =>
      let target := normalizeLinksToTarget unicode target
      links.any fun link =>
        link.targetId == some target.targetId
          || link.targetCanonical == some target.targetCanonical
    | none => false
  | op => anyRow op

/-! ### Filters on rows -/

/-- Only NULL can leave a comparison open; the emptiness tests, the negative operators and an
empty `in` list decide it too. -/
def scalarDecided (op : Op) (value : Json) (cell : Value) : Bool := cell != .null ||
    match op, value with
    | .isEmpty, _ | .notEmpty, _ | .ne, _ | .notContains, _ => true
    | .isIn, .array [] => true
    | _, _ => false

def Tables.tagsOf (tables : Tables) (pageId : String) : List String :=
  (tables.tags.filter (·.pageId == pageId)).map (·.tag)

def Tables.aliasesOf (tables : Tables) (pageId : String) : List String :=
  (tables.names.filter fun row => row.pageId == pageId && row.source == "alias").map
    (·.canonicalName)

def Tables.propertyRows (tables : Tables) (pageId key : String) : List PropertyRow :=
  tables.properties.filter fun row => row.pageId == pageId && row.key == key

def Tables.linkRows (tables : Tables) (pageId key : String) : List LinkRow :=
  tables.links.filter fun row => row.sourceId == pageId && row.sourceField == some key

section Rows

variable (unicode : Unicode) (ctx : QueryContext) (tables : Tables) (row : PageRow)

def cmpHolds (field : String) (op : Op) (value : Json) : Bool :=
  match resolveField field ctx with
  | .ok (.sys .tags) => membershipHolds id op value (tables.tagsOf row.id)
  | .ok (.sys .aliases) =>
    membershipHolds (canonicalName unicode) op value (tables.aliasesOf row.id)
  | .ok (.sys sys) =>
    match sys.column with
    | some column => scalarHolds sys.propertyType op value ctx.today (row.scope column)
    | none => false
  | .ok (.prop key type) =>
    propHolds unicode type op value ctx.today (tables.propertyRows row.id key)
      (tables.linkRows row.id key)
  | .error _ => false

def cmpDecided (field : String) (op : Op) (value : Json) : Bool :=
  match resolveField field ctx with
  | .ok (.sys sys) =>
    match sys.column with
    | some column => scalarDecided op value (row.scope column)
    | none => true
  | _ => true

mutual

def filterHolds : Filter → Bool
  | .all children => filterHoldsAll children
  | .any children => filterHoldsAny children
  | .not child => !filterHolds child
  | .cmp field op value => cmpHolds unicode ctx tables row field op value

def filterHoldsAll : List Filter → Bool
  | [] => true
  | child :: children => filterHolds child && filterHoldsAll children

def filterHoldsAny : List Filter → Bool
  | [] => false
  | child :: children => filterHolds child || filterHoldsAny children

end

mutual

/-- Whether a filter is decided on a row. -/
def filterDecided : Filter → Bool
  | .all children =>
    everyDecided children || someDecidedAs false children
  | .any children =>
    everyDecided children || someDecidedAs true children
  | .not child => filterDecided child
  | .cmp field op value => cmpDecided ctx row field op value

def everyDecided : List Filter → Bool
  | [] => true
  | child :: children => filterDecided child && everyDecided children

def someDecidedAs (value : Bool) : List Filter → Bool
  | [] => false
  | child :: children =>
    (filterDecided child && filterHolds unicode ctx tables row child == value)
      || someDecidedAs value children

end

def filterMeaning (filter : Filter) : Option Bool :=
  Kleene.ofDecided (filterDecided unicode ctx tables row filter)
    (filterHolds unicode ctx tables row filter)

/-! ### The reading of groups

A group's two-valued reading and its decidedness determine each other: a decided
child with the settling value settles the group, and a fully decided group that is
settled has such a child. -/

variable {unicode ctx tables row} {children : List Filter}

private theorem filterHoldsAll_of_someDecided
    (settled : someDecidedAs unicode ctx tables row false children = true) :
    filterHoldsAll unicode ctx tables row children = false := by
  induction children with
  | nil => cases settled
  | cons child children ih =>
    rw [someDecidedAs, Bool.or_eq_true] at settled
    rw [filterHoldsAll]
    rcases settled with here | later
    · simp_all
    · rw [ih later, Bool.and_false]

private theorem someDecided_of_filterHoldsAll
    (decided : everyDecided unicode ctx tables row children = true)
    (fails : filterHoldsAll unicode ctx tables row children = false) :
    someDecidedAs unicode ctx tables row false children = true := by
  induction children with
  | nil => cases fails
  | cons child children ih =>
    rw [everyDecided, Bool.and_eq_true] at decided
    rw [filterHoldsAll, Bool.and_eq_false_iff] at fails
    rw [someDecidedAs, Bool.or_eq_true]
    rcases fails with here | later
    · exact .inl (by simp [decided.1, here])
    · exact .inr (ih decided.2 later)

private theorem filterHoldsAny_of_someDecided
    (settled : someDecidedAs unicode ctx tables row true children = true) :
    filterHoldsAny unicode ctx tables row children = true := by
  induction children with
  | nil => cases settled
  | cons child children ih =>
    rw [someDecidedAs, Bool.or_eq_true] at settled
    rw [filterHoldsAny]
    rcases settled with here | later
    · simp_all
    · rw [ih later, Bool.or_true]

private theorem someDecided_of_filterHoldsAny
    (decided : everyDecided unicode ctx tables row children = true)
    (holds : filterHoldsAny unicode ctx tables row children = true) :
    someDecidedAs unicode ctx tables row true children = true := by
  induction children with
  | nil => cases holds
  | cons child children ih =>
    rw [everyDecided, Bool.and_eq_true] at decided
    rw [filterHoldsAny, Bool.or_eq_true] at holds
    rw [someDecidedAs, Bool.or_eq_true]
    rcases holds with here | later
    · exact .inl (by simp [decided.1, here])
    · exact .inr (ih decided.2 later)

variable (unicode ctx tables row)

theorem filterMeaning_not (child : Filter) : filterMeaning unicode ctx tables row (.not child)
      = Kleene.not (filterMeaning unicode ctx tables row child) := by
  rw [filterMeaning, filterMeaning, filterDecided, filterHolds, Kleene.not_ofDecided]

theorem filterMeaning_all (children : List Filter) :
    filterMeaning unicode ctx tables row (.all children)
      = Kleene.all (children.map (filterMeaning unicode ctx tables row)) := by
  induction children with
  | nil => rfl
  | cons child children ih =>
    rw [map_cons, Kleene.all, ← ih]
    simp only [filterMeaning, filterDecided, filterHolds, everyDecided, someDecidedAs,
      filterHoldsAll]
    exact (Kleene.and_ofDecided _ _ filterHoldsAll_of_someDecided
      someDecided_of_filterHoldsAll).symm

theorem filterMeaning_any (children : List Filter) :
    filterMeaning unicode ctx tables row (.any children)
      = Kleene.any (children.map (filterMeaning unicode ctx tables row)) := by
  induction children with
  | nil => rfl
  | cons child children ih =>
    rw [map_cons, Kleene.any, ← ih]
    simp only [filterMeaning, filterDecided, filterHolds, everyDecided, someDecidedAs,
      filterHoldsAny]
    exact (Kleene.or_ofDecided _ _ filterHoldsAny_of_someDecided someDecided_of_filterHoldsAny).symm

end Rows

/-! ### Parameters -/

variable {field : String} {type : PropertyType} {value : Json} {param : Value}

theorem literalOf_of_bindValue (bound : bindValue field type value = .ok param) :
    literalOf type value = some param := by
  unfold literalOf
  unfold bindValue at bound ⊢
  cases type <;> cases value <;> simp_all [Except.toOption]

theorem bindValue_ne_null (bound : bindValue field type value = .ok param) : param ≠ .null := by
  unfold bindValue at bound
  cases type <;> cases value <;> simp only [Except.ok.injEq, reduceCtorEq] at bound <;>
    subst bound <;> simp

theorem bindLiteralContainsValue_text {op : Op} (contains : type.supportsContains = true)
    (bound : bindLiteralContainsValue field type op value = .ok param) :
    ∃ needle, literalText value = some needle
      ∧ param = .text (String.ofList (escapeLike needle.toList)) := by
  unfold bindLiteralContainsValue bindValue at bound
  unfold literalText literalOf bindValue
  cases type <;> cases value <;>
    simp_all [Except.toOption, PropertyType.supportsContains, bind, Except.bind]

theorem likeTokens_escapeLike (needle rest : List Char) :
    likeTokens '\\' (escapeLike needle ++ rest)
      = (likeTokens '\\' rest).map (needle.map .literal ++ ·) := by
  induction needle with
  | nil => simp [escapeLike]
  | cons head tail ih =>
    rw [escapeLike]
    split_ifs with special
    · simp only [cons_append, likeTokens, if_true, ih, Option.map_map, map_cons]
      rfl
    · obtain ⟨notEscape, notPercent, notUnderscore⟩ : head ≠ '\\' ∧ head ≠ '%' ∧ head ≠ '_' := by
        simpa only [not_or] using special
      rw [cons_append, likeTokens_plain _ notEscape notPercent notUnderscore, ih, Option.map_map]
      rfl

def likeShape : Bool → Bool → List Char → List Char → Bool
  | true, true => containsFolded
  | false, true => startsWithFolded
  | true, false => endsWithFolded
  | false, false => fun needle text => needle.map foldAscii == text.map foldAscii

theorem likeText_escaped (leading trailing : Bool) (needle text : String) :
    likeText '\\' ((if leading then "%" else "") ++ String.ofList (escapeLike needle.toList)
        ++ (if trailing then "%" else "")) text
      = likeShape leading trailing needle.toList text.toList := by
  have reading :
      likeTokens '\\' ((if leading then "%" else "") ++ String.ofList (escapeLike needle.toList)
          ++ (if trailing then "%" else "")).toList
        = some ((if leading then [LikeToken.anyRun] else [])
            ++ (needle.toList.map .literal ++ if trailing then [LikeToken.anyRun] else [])) := by
    have closing : likeTokens '\\' (if trailing then "%" else "").toList
        = some (if trailing then [LikeToken.anyRun] else []) := by
      cases trailing <;> decide
    have middle : likeTokens '\\' (escapeLike needle.toList ++ (if trailing then "%" else "").toList)
        = some (needle.toList.map .literal ++ if trailing then [LikeToken.anyRun] else []) := by
      rw [likeTokens_escapeLike, closing]
      rfl
    rw [String.toList_append, String.toList_append, String.toList_ofList]
    cases leading with
    | false => simpa using middle
    | true =>
      rw [if_pos rfl, if_pos rfl, show "%".toList = ['%'] from rfl, cons_append,
        cons_append, likeTokens_percent _ (by decide), nil_append, middle]
      rfl
  unfold likeText
  rw [reading]
  cases leading <;> cases trailing
  · simpa [likeShape] using likeMatches_exact needle.toList text.toList
  · exact likeMatches_start needle.toList text.toList
  · simpa [likeShape] using likeMatches_end needle.toList text.toList
  · exact likeMatches_infix needle.toList text.toList

theorem likeValues_escaped (leading trailing : Bool) {needle : String}
    (literal : literalText value = some needle) {cell : Value} (stored : cell ≠ .null) :
    likeValues '\\'
        (wildcards leading trailing (.text (String.ofList (escapeLike needle.toList)))) cell
      = some (textTest (likeShape leading trailing) value cell) := by
  cases cell with
  | null => contradiction
  | integer | real => simp [likeValues, wildcards, textTest, literal]
  | text text => simp [likeValues, wildcards, textTest, literal, likeText_escaped]

end Clepsydra.Bases
