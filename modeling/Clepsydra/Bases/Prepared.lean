import Clepsydra.Bases.Query

/-!
Owns: what is prepared of a query before any row is read: the `WHERE` clause, the terms of `ORDER
BY` with their joins, the colour rules, and the group key.

Proves: which specifications can be prepared, part by part.
-/

namespace Clepsydra.Bases

open Library.Sqlite Vault

/-! ### Identities of fields -/

inductive ProjectionFieldIdentity where
  | system (field : SysField)
  | property (key : String)
  | body
deriving DecidableEq

def resolveProjectionField (field : String) : Except QueryError ProjectionFieldIdentity :=
  if isBodyFieldReference field then .ok .body
  else
    match stripStart "sys." field with
    | some name =>
      match SysField.fromName name with
      | some sys => .ok (.system sys)
      | none => .error (.unknownSystemField name)
    | none =>
      match stripStart "prop." field with
      | some name => .ok (.property name)
      | none =>
        match SysField.fromName field with
        | some sys => .ok (.system sys)
        | none => .ok (.property field)

def ProjectionFieldIdentity.resolve (ctx : QueryContext) :
    ProjectionFieldIdentity → Except QueryError ResolvedField
  | .system sys => .ok (.sys sys)
  | .property key => .ok (.prop key (ctx.propertyType key))
  | .body => .error .projectionOnlyBody

theorem resolveField_eq (field : String) (ctx : QueryContext) :
    resolveField field ctx = resolveProjectionField field >>= fun identity => identity.resolve ctx := by
  unfold resolveField resolveProjectionField
  by_cases isBody : isBodyFieldReference field = true
  · rw [if_pos isBody, if_pos isBody]
    rfl
  · rw [if_neg isBody, if_neg isBody]
    cases stripStart "sys." field with
    | some name =>
      dsimp only
      cases SysField.fromName name <;> rfl
    | none =>
      dsimp only
      cases stripStart "prop." field with
      | some name => rfl
      | none =>
        dsimp only
        cases SysField.fromName field <;> rfl

/-! ### What a field may be used for -/

def SysField.isScalarSortable : SysField → Bool
  | .tags | .aliases | .encryption => false
  | _ => true

def PropertyType.isScalarSortable : PropertyType → Bool
  | .multiSelect | .relation => false
  | _ => true

def PropertyType.isGroupable : PropertyType → Bool
  | .select | .text | .bool | .date | .datetime | .url | .relation => true
  | _ => false

def isGroupable : ResolvedField → Bool
  | .sys sys => sys.column.isSome
  | .prop _ type => type.isGroupable

theorem SysField.column_of_isScalarSortable {sys : SysField}
    (sortable : sys.isScalarSortable = true) : ∃ column, sys.column = some column := by
  cases sys <;> first | exact ⟨_, rfl⟩ | exact absurd sortable (by decide)

/-! ### Specifications -/

inductive SortDir where
  | asc | desc
deriving DecidableEq

structure SortKey where
  field : String
  dir : SortDir

inductive AggregateFn where
  | count | sum | avg | min | max | countEmpty | countFilled | percentFilled | countUnique | median
  | range

namespace AggregateFn

def requiresField : AggregateFn → Bool
  | .count => false
  | _ => true

def isFold : AggregateFn → Bool
  | .sum | .avg | .min | .max | .median | .range => true
  | _ => false

end AggregateFn

structure Aggregate where
  function : AggregateFn
  field : Option String

structure MetricDefinition where
  function : AggregateFn
  field : Option String

inductive RowColor where
  | sepia | verdigris | slate | madder | ochre | indigo

structure ColorRule where
  filter : Filter
  color : RowColor

inductive GroupRowLimit where
  | default
  | unlimited
  | limit (count : Nat)

structure QuerySpec where
  filter : Option Filter
  /-- The ephemeral search. -/
  q : Option String
  /-- The fields that are searched; those shown when absent. -/
  searchColumns : Option (List String)
  sort : List SortKey
  groupBy : Option String
  aggregates : List Aggregate
  colorRules : List ColorRule
  metrics : List MetricDefinition
  columns : List String
  limit : Option Nat
  offset : Nat
  groupRowLimit : GroupRowLimit

/-! ### Search -/

def likeAnywhere (column : Column) : QueryTemplate := .like false (.column column) true hole true

def searchField (needle : Value) : ResolvedField → List (QueryTemplate × List Value)
  | .sys .tags => [(tagMembership.existsWhere false (likeAnywhere .tagTag), [needle])]
  | .sys .aliases =>
    [(aliasMembership.existsWhere false (likeAnywhere .nameCanonicalName), [needle])]
  | .sys .path => [(likeAnywhere .pagePath, [needle])]
  | .sys .kind => [(likeAnywhere .pageKind, [needle])]
  | .sys .project => [(likeAnywhere .pageProject, [needle])]
  | .sys _ => []
  | .prop key type =>
    if key ≠ "conversation" ∧
        (type = .text ∨ type = .url ∨ type = .select ∨ type = .multiSelect) then
      [(propertyExists false [likeAnywhere .propertyText], [.text key, needle])]
    else []

def searchFields (ctx : QueryContext) (needle : Value) (seen : List ProjectionFieldIdentity) :
    List String → Except QueryError (List (QueryTemplate × List Value))
  | [] => .ok []
  | field :: rest => do
      let identity ← resolveProjectionField field
      if identity ∈ seen then searchFields ctx needle seen rest
      else if identity = .body then searchFields ctx needle (identity :: seen) rest
      else do
        let resolved ← resolveField field ctx
        let others ← searchFields ctx needle (identity :: seen) rest
        .ok (searchField needle resolved ++ others)

def QuerySpec.searched (spec : QuerySpec) : Option String :=
  (spec.q.map trim).filter fun text => text ≠ ""

/-- `search_clause`. The title is always searched. -/
def searchClause (spec : QuerySpec) (ctx : QueryContext) : Except QueryError (Option SqlFilter) :=
  match spec.searched with
  | none => .ok none
  | some q => do
      let needle ← bindLiteralContainsValue "q" .text .contains (.string q)
      let fields ← searchFields ctx needle [.system .title] (spec.searchColumns.getD spec.columns)
      let clauses := (likeAnywhere .pageTitle, [needle]) :: fields
      .ok (some ⟨.paren (.disj (clauses.map Prod.fst)), clauses.flatMap Prod.snd⟩)

/-! ### Preparation -/

/-- A term of `ORDER BY`, with the joins and the subquery it needs. -/
inductive SortTerm where
  /-- `c IS NULL, c dir` on `pages`. -/
  | column (column : Column) (dir : SortDir)
  /-- `s.c IS NULL, s.c dir` on the first `page_properties` row of a key, joined on the left. -/
  | property (key : String) (column : Column) (dir : SortDir)
  /-- The canonical name of the first link of a key. -/
  | relation (key : String) (dir : SortDir)

structure PreparedQuery where
  condition : SqlFilter
  order : List SortTerm
  /-- The branches of `CASE`, in the order of the rules. -/
  colors : List SqlFilter

/-- `1=1` where nothing is filtered. -/
def compileOptional (unicode : Unicode) (ctx : QueryContext) : Option Filter →
    Except QueryError SqlFilter
  | some filter => compileFilter unicode ctx filter
  | none => .ok ⟨.constant true, []⟩

def prepareWhere (unicode : Unicode) (ctx : QueryContext) (spec : QuerySpec) :
    Except QueryError SqlFilter := do
  let filter ← compileOptional unicode ctx spec.filter
  match ← searchClause spec ctx with
  | none => .ok filter
  | some search =>
    .ok ⟨.conj [.paren filter.clause, search.clause], filter.params ++ search.params⟩

def prepareSortKey (ctx : QueryContext) (key : SortKey) : Except QueryError SortTerm := do
  match ← resolveField key.field ctx with
  | .sys sys =>
    if sys.isScalarSortable then
      match sys.column with
      | some column => .ok (.column column key.dir)
      | none => .error (.invalidOp key.field .eq)
    else .error (.invalidOp key.field .eq)
  | .prop name type =>
    if type = .relation then .ok (.relation name key.dir)
    else .ok (.property name (typedColumn type) key.dir)

/-- `prepare`. -/
def prepare (unicode : Unicode) (ctx : QueryContext) (spec : QuerySpec) :
    Except QueryError PreparedQuery := do
  let condition ← prepareWhere unicode ctx spec
  let order ← spec.sort.mapM (prepareSortKey ctx)
  let colors ← spec.colorRules.mapM fun rule => compileFilter unicode ctx rule.filter
  .ok ⟨condition, order, colors⟩

/-! ### Group keys -/

inductive GroupColumn where
  | system (column : Column)
  | property (key : String) (column : Column)
  | relation (key : String)

inductive EvaluationError where
  | query (error : QueryError)
  | ungroupable (field : String)
  | invalidAggregate (function : AggregateFn)

/-- The check of a group key that `evaluate_grouped` begins with. -/
def groupColumn (ctx : QueryContext) (key : String) : Except EvaluationError GroupColumn :=
  match resolveField key ctx with
  | .error error => .error (.query error)
  | .ok resolved =>
    if isGroupable resolved then
      match resolved with
      | .sys sys =>
        match sys.column with
        | some column => .ok (.system column)
        | none => .error (.ungroupable key)
      | .prop name .relation => .ok (.relation name)
      | .prop name type => .ok (.property name (typedColumn type))
    else .error (.ungroupable key)

theorem groupColumn_isOk_iff {ctx : QueryContext} {key : String} :
    (∃ column, groupColumn ctx key = .ok column) ↔
      ∃ resolved, resolveField key ctx = .ok resolved ∧ isGroupable resolved = true := by
  unfold groupColumn
  cases resolveField key ctx with
  | error error =>
    simp
  | ok resolved =>
    by_cases groupable : isGroupable resolved = true
    · refine iff_of_true ?_ ⟨resolved, rfl, groupable⟩
      dsimp only
      rw [if_pos groupable]
      cases resolved with
      | sys sys =>
        have ⟨column, isColumn⟩ := Option.isSome_iff_exists.1 groupable
        exact ⟨.system column, by simp only [isColumn]⟩
      | prop name type => cases type <;> exact ⟨_, rfl⟩
    · simp [groupable]

end Clepsydra.Bases
