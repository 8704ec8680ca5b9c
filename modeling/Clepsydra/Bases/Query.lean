import Clepsydra.Bases.Filter
import Clepsydra.Library.Sqlite
import Clepsydra.Vault.Canonical

/-!
Owns: the compilation of a filter to a `WHERE` clause over `pages p`, with its bound parameters in
placeholder order.
-/

namespace Clepsydra.Bases

open Library.Sqlite Vault

/-! ### The queried schema -/

/-- The tables a compiled clause reads besides `pages`. -/
inductive Table where
  | tags | canonicalNames | pageProperties | links

inductive Column where
  | pageId | pagePath | pageTitle | pageKind | pageProject | pageCreatedAt | pageUpdatedAt
  | pageEncrypted | pageJournalDate | pageWordCount
  | tagPageId | tagTag
  | namePageId | nameSource | nameCanonicalName
  | propertyPageId | propertyKey | propertyText | propertyNum | propertyDate | propertyBool
  | linkSourceId | linkSourceField | linkTargetId | linkTargetCanonical

abbrev QueryTemplate := Template Table Column

abbrev QueryClause := Bound Table Column

/-! ### Fields -/

/-- A system field backed by `pages`, `tags` or `canonical_names`. -/
inductive SysField where
  | id | path | title | kind | project | tags | aliases | createdAt | updatedAt | encryption
  | journalDate | wordCount
deriving DecidableEq

namespace SysField

def fromName : String → Option SysField
  | "id" => some .id
  | "path" => some .path
  | "title" => some .title
  | "kind" => some .kind
  | "project" => some .project
  | "tags" => some .tags
  | "aliases" => some .aliases
  | "created_at" => some .createdAt
  | "updated_at" => some .updatedAt
  | "encryption" => some .encryption
  | "journal_date" => some .journalDate
  | "word_count" => some .wordCount
  | _ => none

def asStr : SysField → String
  | .id => "id"
  | .path => "path"
  | .title => "title"
  | .kind => "kind"
  | .project => "project"
  | .tags => "tags"
  | .aliases => "aliases"
  | .createdAt => "created_at"
  | .updatedAt => "updated_at"
  | .encryption => "encryption"
  | .journalDate => "journal_date"
  | .wordCount => "word_count"

/-- The `pages` column of a scalar field; the multi-valued ones have none. -/
def column : SysField → Option Column
  | .id => some .pageId
  | .path => some .pagePath
  | .title => some .pageTitle
  | .kind => some .pageKind
  | .project => some .pageProject
  | .createdAt => some .pageCreatedAt
  | .updatedAt => some .pageUpdatedAt
  | .encryption => some .pageEncrypted
  | .journalDate => some .pageJournalDate
  | .wordCount => some .pageWordCount
  | .tags | .aliases => none

def propertyType : SysField → PropertyType
  | .encryption => .bool
  | .wordCount => .number
  | .journalDate => .date
  | _ => .text

def supportsContains (field : SysField) : Bool :=
  field.propertyType.supportsContains

def supportsRelativeDate : SysField → Bool
  | .createdAt | .updatedAt | .journalDate => true
  | _ => false

def supportsAffix (field : SysField) : Bool :=
  field.column.isSome && field.propertyType == .text

end SysField

inductive ResolvedField where
  | sys (field : SysField)
  | prop (key : String) (propertyType : PropertyType)
deriving DecidableEq

structure QueryContext where
  base : Option BaseDefinition
  types : List (String × PropertyType)
  today : NaiveDate

/-- `QueryContext::for_base`. The date plays no part in resolution. -/
def QueryContext.forBase (base : BaseDefinition) (today : NaiveDate) : QueryContext where
  base := some base
  types := []
  today := today

inductive QueryError where
  | unknownSystemField (name : String)
  | projectionOnlyBody
  | invalidOp (field : String) (op : Op)
  | invalidValue (field : String) (reason : String)

/-- `QueryContext::property_type`: declared, else inline, else built-in, else text. -/
def QueryContext.propertyType (ctx : QueryContext) (key : String) : PropertyType :=
  match ctx.base.bind (·.declaredProperty key) with
  | some definition => definition.propertyType
  | none =>
    ((ctx.types.lookup key).or ((builtinProperty key).map (·.propertyType))).getD .text

def isBodyFieldReference (field : String) : Bool :=
  field == "body" || stripStart "sys." field == some "body" || stripStart "prop." field == some "body"

/-- `resolve_field`. -/
def resolveField (field : String) (ctx : QueryContext) : Except QueryError ResolvedField :=
  if isBodyFieldReference field then .error .projectionOnlyBody
  else
    match stripStart "sys." field with
    | some name =>
      match SysField.fromName name with
      | some sys => .ok (.sys sys)
      | none => .error (.unknownSystemField name)
    | none =>
      match stripStart "prop." field with
      | some name => .ok (.prop name (ctx.propertyType name))
      | none =>
        match SysField.fromName field with
        | some sys => .ok (.sys sys)
        | none => .ok (.prop field (ctx.propertyType field))

/-! ### Parameters -/

/-- The `page_properties` column of a declared type. -/
def typedColumn : PropertyType → Column
  | .number => .propertyNum
  | .date | .datetime => .propertyDate
  | .bool => .propertyBool
  | _ => .propertyText

def bindValue (field : String) (type : PropertyType) (value : Json) : Except QueryError Value :=
  match type with
  | .number =>
    match value with
    | .number number => .ok (.real number.toDouble)
    | _ => .error (.invalidValue field "expected a number")
  | .bool =>
    match value with
    | .bool value => .ok (.integer (if value then 1 else 0))
    | _ => .error (.invalidValue field "expected a boolean")
  | _ =>
    match value with
    | .string text => .ok (.text text)
    | .number number => .ok (.text number.toText)
    | .bool value => .ok (.text (if value then "true" else "false"))
    | _ => .error (.invalidValue field "expected a scalar")

/-- Puts a backslash before each `LIKE` metacharacter. -/
def escapeLike : List Char → List Char
  | [] => []
  | character :: rest =>
    if character = '\\' ∨ character = '%' ∨ character = '_' then
      '\\' :: character :: escapeLike rest
    else
      character :: escapeLike rest

def bindLiteralContainsValue (field : String) (type : PropertyType) (op : Op) (value : Json) :
    Except QueryError Value := do
  match ← bindValue field type value with
  | .text text => .ok (.text (String.ofList (escapeLike text.toList)))
  | _ => .error (.invalidOp field op)

def bindRelativeWindow (window : NaiveDate × NaiveDate) : List Value :=
  [.text window.1.format, .text window.2.format]

def sqlOp : Op → Option CompareOp
  | .eq => some .eq
  | .ne => some .ne
  | .lt => some .lt
  | .lte => some .le
  | .gt => some .gt
  | .gte => some .ge
  | _ => none

/-- Binds each item of an `in` list. -/
def bindItems (bindItem : Json → Except QueryError Value) : List Json → Except QueryError (List Value)
  | [] => .ok []
  | item :: items => do
      let head ← bindItem item
      let tail ← bindItems bindItem items
      .ok (head :: tail)

/-- The array of candidates of an `in` comparison. -/
def inCandidates (field : String) (value : Json) : Except QueryError (List Json) :=
  match value.asArray with
  | some items => .ok items
  | none => .error (.invalidValue field "`in` expects an array")

/-! ### Compilation

Each function returns the clause together with the parameters it pushes, in the
order it pushes them. -/

structure SqlFilter where
  clause : QueryTemplate
  params : List Value

/-- The `?` placeholder. -/
def hole : Operand Column Unit := .placeholder ()

/-- The placeholders of an `IN` list. -/
def holes (values : List Value) : List (Operand Column Unit) := List.replicate values.length hole

/-- The subquery for a multi-valued system field: its table, the conditions before its column, and
the column. -/
structure Membership where
  table : Table
  conditions : List QueryTemplate
  subject : Column

/-- `SELECT 1 FROM tags t WHERE t.page_id = p.id AND t.tag …`. -/
def tagMembership : Membership where
  table := .tags
  conditions := [.compare (.column .tagPageId) .eq (.column .pageId)]
  subject := .tagTag

/-- `SELECT 1 FROM canonical_names a WHERE … AND a.source = 'alias' AND a.canonical_name …`. -/
def aliasMembership : Membership where
  table := .canonicalNames
  conditions := [.compare (.column .namePageId) .eq (.column .pageId),
      .compare (.column .nameSource) .eq (.literal "alias")]
  subject := .nameCanonicalName

def Membership.existsWhere (source : Membership) (negated : Bool) (test : QueryTemplate) :
    QueryTemplate :=
  .existsIn negated source.table (.conj (source.conditions ++ [test]))

def membershipText (field : String) (toParam : String → String) (value : Json) :
    Except QueryError Value :=
  match value.asString with
  | some text => .ok (.text (toParam text))
  | none => .error (.invalidValue field "expected a string")

/-- Membership-style compilation for `tags` and `aliases`. -/
def compileMembership (field : String) (op : Op) (value : Json) (source : Membership)
    (toParam : String → String) : Except QueryError SqlFilter :=
  let subject : Operand Column Unit := .column source.subject
  match op with
  | .eq | .contains => do
      let param ← membershipText field toParam value
      .ok ⟨source.existsWhere false (.compare subject .eq hole), [param]⟩
  | .ne | .notContains => do
      let param ← membershipText field toParam value
      .ok ⟨source.existsWhere true (.compare subject .eq hole), [param]⟩
  | .isIn => do
      let items ← inCandidates field value
      let params ← bindItems (membershipText field toParam) items
      .ok ⟨source.existsWhere false (.inList subject (holes params)), params⟩
  | .isEmpty => .ok ⟨source.existsWhere true (.isNotNull subject), []⟩
  | .notEmpty => .ok ⟨source.existsWhere false (.isNotNull subject), []⟩
  | _ => .error (.invalidOp field op)

def compileScalarLike (field : String) (supported : Bool) (op : Op) (value : Json)
    (clause : QueryTemplate) : Except QueryError SqlFilter :=
  if supported then do
    let param ← bindLiteralContainsValue field .text op value
    .ok ⟨clause, [param]⟩
  else
    .error (.invalidOp field op)

/-- The scalar system fields: predicates on a column of `pages`. -/
def compileScalar (field : String) (sys : SysField) (column : Column) (op : Op) (value : Json)
    (today : NaiveDate) : Except QueryError SqlFilter :=
  let subject : Operand Column Unit := .column column
  match op with
  | .isEmpty => .ok ⟨.isNull subject, []⟩
  | .notEmpty => .ok ⟨.isNotNull subject, []⟩
  | .isIn => do
      let items ← inCandidates field value
      let params ← bindItems (bindValue field sys.propertyType) items
      .ok ⟨.inList subject (holes params), params⟩
  | .contains =>
    compileScalarLike field sys.supportsContains op value (.like false subject true hole true)
  | .notContains =>
    compileScalarLike field sys.supportsContains op value
      (.paren (.disj [.isNull subject, .like true subject true hole true]))
  | .startsWith =>
    compileScalarLike field sys.supportsAffix op value (.like false subject false hole true)
  | .endsWith =>
    compileScalarLike field sys.supportsAffix op value (.like false subject true hole false)
  | .linksTo => .error (.invalidOp field op)
  | .isToday | .isThisWeek | .isPastWeek | .isNextWeek | .isThisMonth =>
    match sys.supportsRelativeDate, relativeDateWindow op today with
    | true, some window =>
      .ok ⟨.paren (.conj [.compare subject .ge hole, .compare subject .lt hole]),
        bindRelativeWindow window⟩
    | _, _ => .error (.invalidOp field op)
  | .ne => do
      let param ← bindValue field sys.propertyType value
      .ok ⟨.paren (.disj [.isNull subject, .compare subject .ne hole]), [param]⟩
  | .eq | .lt | .lte | .gt | .gte =>
    match sqlOp op with
    | some compareOp => do
        let param ← bindValue field sys.propertyType value
        .ok ⟨.compare subject compareOp hole, [param]⟩
    | none => .error (.invalidOp field op)

/-- `EXISTS` or `NOT EXISTS` over the `page_properties` rows of one key. -/
def propertyExists (negated : Bool) (tests : List QueryTemplate) : QueryTemplate :=
  .existsIn negated .pageProperties (.conj (.compare (.column .propertyPageId) .eq (.column .pageId)
        :: .compare (.column .propertyKey) .eq hole :: tests))

/-- The subquery of a `links_to` comparison. -/
def linkExists : QueryTemplate := .existsIn false .links (.conj
      [.compare (.column .linkSourceId) .eq (.column .pageId),
        .compare (.column .linkSourceField) .eq hole,
        .paren (.disj [.compare (.column .linkTargetId) .eq hole,
            .compare (.column .linkTargetCanonical) .eq hole])])

/-- A `contains` test and its parameter: membership on categorical types, else a substring. -/
def compileContains (field : String) (type : PropertyType) (op : Op) (value : Json) :
    Except QueryError (QueryTemplate × Value) :=
  let subject : Operand Column Unit := .column (typedColumn type)
  if type.supportsContains then
    if type.isCategorical then do
      let param ← bindValue field type value
      .ok (.compare subject .eq hole, param)
    else do
      let param ← bindLiteralContainsValue field type op value
      .ok (.like false subject true hole true, param)
  else
    .error (.invalidOp field op)

/-- Declared and undeclared properties: subqueries on `page_properties` and `links`. -/
def compileProp (unicode : Unicode) (field key : String) (type : PropertyType) (op : Op)
    (value : Json) (today : NaiveDate) : Except QueryError SqlFilter :=
  let subject : Operand Column Unit := .column (typedColumn type)
  match op with
  -- Absence of rows is the empty state.
  | .isEmpty => .ok ⟨propertyExists true [], [.text key]⟩
  | .notEmpty => .ok ⟨propertyExists false [], [.text key]⟩
  | .linksTo =>
    if type.supportsLinksTo then
      match value.asString with
      | some target =>
        let target := normalizeLinksToTarget unicode target
        .ok ⟨linkExists, [.text key, .text target.targetId, .text target.targetCanonical]⟩
      | none => .error (.invalidValue field "`links_to` expects a string target")
    else
      .error (.invalidOp field op)
  | .isIn => do
      let items ← inCandidates field value
      let params ← bindItems (bindValue field type) items
      .ok ⟨propertyExists false [.inList subject (holes params)], .text key :: params⟩
  | .contains => do
      let (test, param) ← compileContains field type op value
      .ok ⟨propertyExists false [test], [.text key, param]⟩
  -- No element matches, so pages without the key match too.
  | .notContains => do
      let (test, param) ← compileContains field type op value
      .ok ⟨propertyExists true [test], [.text key, param]⟩
  | .isToday | .isThisWeek | .isPastWeek | .isNextWeek | .isThisMonth =>
    match type.supportsRelativeDate, relativeDateWindow op today with
    | true, some window =>
      .ok ⟨propertyExists false
          [.compare (.column .propertyDate) .ge hole, .compare (.column .propertyDate) .lt hole],
        .text key :: bindRelativeWindow window⟩
    | _, _ => .error (.invalidOp field op)
  | .startsWith =>
    if type.supportsAffix then do
      let param ← bindLiteralContainsValue field type op value
      .ok ⟨propertyExists false [.like false subject false hole true], [.text key, param]⟩
    else
      .error (.invalidOp field op)
  | .endsWith =>
    if type.supportsAffix then do
      let param ← bindLiteralContainsValue field type op value
      .ok ⟨propertyExists false [.like false subject true hole false], [.text key, param]⟩
    else
      .error (.invalidOp field op)
  | .ne => do
      let param ← bindValue field type value
      .ok ⟨propertyExists true [.compare subject .eq hole], [.text key, param]⟩
  | .eq | .lt | .lte | .gt | .gte =>
    match sqlOp op with
    | some compareOp => do
        let param ← bindValue field type value
        .ok ⟨propertyExists false [.compare subject compareOp hole], [.text key, param]⟩
    | none => .error (.invalidOp field op)

def compileCmp (unicode : Unicode) (field : String) (op : Op) (value : Json) (ctx : QueryContext) :
    Except QueryError SqlFilter := do
  match ← resolveField field ctx with
  | .sys .tags => compileMembership field op value tagMembership id
  | .sys .aliases => compileMembership field op value aliasMembership (canonicalName unicode)
  | .sys sys =>
    match sys.column with
    | some column => compileScalar field sys column op value ctx.today
    | none => .error (.invalidOp field op)
  | .prop key type => compileProp unicode field key type op value ctx.today

mutual

/-- `compile_filter`: the clause of a filter and its parameters. -/
def compileFilter (unicode : Unicode) (ctx : QueryContext) : Filter → Except QueryError SqlFilter
  | .all children =>
    match children with
    | [] => .ok ⟨.constant true, []⟩
    | child :: children => do
        let parts ← compileChildren unicode ctx (child :: children)
        .ok ⟨.paren (.conj parts.1), parts.2⟩
  | .any children =>
    match children with
    | [] => .ok ⟨.constant false, []⟩
    | child :: children => do
        let parts ← compileChildren unicode ctx (child :: children)
        .ok ⟨.paren (.disj parts.1), parts.2⟩
  | .not child => do
      let compiled ← compileFilter unicode ctx child
      .ok ⟨.neg compiled.clause, compiled.params⟩
  | .cmp field op value => compileCmp unicode field op value ctx

def compileChildren (unicode : Unicode) (ctx : QueryContext) :
    List Filter → Except QueryError (List QueryTemplate × List Value)
  | [] => .ok ([], [])
  | child :: children => do
      let head ← compileFilter unicode ctx child
      let tail ← compileChildren unicode ctx children
      .ok (head.clause :: tail.1, head.params ++ tail.2)

end

end Clepsydra.Bases
