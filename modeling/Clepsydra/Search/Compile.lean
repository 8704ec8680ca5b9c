import Clepsydra.Library.Sqlite
import Clepsydra.Search.Expression

/-!
Owns: the SQL condition a search expression is compiled to, its parameters and text tables, and the
condition that supports each positive text.

A condition is the tree its text is parsed to.
-/

namespace Clepsydra.Search

open Library Library.Sqlite

/-! ### Full-text expressions -/

/-- `prefix_fts_expression`: every run of letters and digits, quoted, as a beginning of a word. -/
def leadingFtsExpression (isAlphanumeric : Char → Bool) (value : String) : String :=
  let terms := (value.toList.splitOnP fun character => !isAlphanumeric character).filter
    fun term => !term.isEmpty
  String.intercalate " AND " (terms.map fun term => "\"" ++ String.ofList term ++ "\"*")

def escapeFtsPhrase (value : String) : String :=
  String.ofList (value.toList.flatMap fun character =>
    if character = '"' then ['"', '"'] else [character])

def ftsText (isAlphanumeric : Char → Bool) (value : String) : TextMode → String
  | .leading => leadingFtsExpression isAlphanumeric value
  | .phrase =>
    if value.toList.any isAlphanumeric then "\"" ++ escapeFtsPhrase value ++ "\"" else ""

def ftsExpression (isAlphanumeric : Char → Bool) (input : List Char) (value : String)
    (mode : TextMode) (span : SearchSpan) : Except SearchQueryError String :=
  let expression := ftsText isAlphanumeric value mode
  if expression.isEmpty then
    .error (.new input .emptyValue span "text contains no searchable token")
  else .ok expression

/-! ### Conditions -/

/-- The tests of a condition. `text_n` is a table of the statement, `?n` a parameter. -/
inductive Test where
  | existsText (ordinal : Nat)
  | kindIs (parameter : Nat)
  | projectIs (parameter : Nat)
  | tagged (parameter : Nat)
  | attendees (comparison : CountComparison) (parameter : Nat)

inductive Condition where
  | one
  | test (test : Test)
  | not (condition : Condition)
  | and (conditions : List Condition)
  | or (conditions : List Condition)

mutual

/-- Three-valued evaluation. `()` is not an expression, so an empty group has no value. -/
def Condition.eval (truth : Test → Option Bool) : Condition → Option Bool
  | .one => some true
  | .test test => truth test
  | .not condition => Kleene.not (condition.eval truth)
  | .and conditions =>
    if conditions.isEmpty then none else Kleene.all (evalConditions truth conditions)
  | .or conditions =>
    if conditions.isEmpty then none else Kleene.any (evalConditions truth conditions)

def evalConditions (truth : Test → Option Bool) : List Condition → List (Option Bool)
  | [] => []
  | condition :: rest => condition.eval truth :: evalConditions truth rest

end

theorem evalConditions_eq_map (truth : Test → Option Bool) (conditions : List Condition) :
    evalConditions truth conditions = conditions.map (Condition.eval truth) := by
  induction conditions with
  | nil => rfl
  | cons condition rest ih =>
    rw [evalConditions, List.map_cons, ih]

inductive CompiledExpression where
  | predicate (condition : Condition)
  | positiveText (ordinal : Nat) (predicate : Condition)
  | all (children : List CompiledExpression)
  | any (children : List CompiledExpression)

mutual

def CompiledExpression.render : CompiledExpression → Condition
  | .predicate condition => condition
  | .positiveText _ predicate => predicate
  | .all children => .and (renderChildren children)
  | .any children => .or (renderChildren children)

def renderChildren : List CompiledExpression → List Condition
  | [] => []
  | child :: rest => child.render :: renderChildren rest

end

mutual

/-- `collect_positive_support`: the condition under which each positive text counts. -/
def CompiledExpression.collectPositiveSupport :
    CompiledExpression → Condition → List (Option Condition) → List (Option Condition)
  | .predicate _, _, support => support
  | .positiveText ordinal _, context, support => support.set ordinal (some context)
  | .any children, context, support => collectFromAny children context support
  | .all children, context, support => collectFromAll [] children context support

def collectFromAny :
    List CompiledExpression → Condition → List (Option Condition) → List (Option Condition)
  | [], _, support => support
  | child :: rest, context, support =>
    collectFromAny rest context (child.collectPositiveSupport context support)

def collectFromAll (earlier : List Condition) :
    List CompiledExpression → Condition → List (Option Condition) → List (Option Condition)
  | [], _, support => support
  | child :: rest, context, support =>
    collectFromAll (earlier ++ [child.render]) rest context
      (child.collectPositiveSupport (.and (context :: (earlier ++ renderChildren rest))) support)

end

/-! ### The compiler -/

structure TextLeaf where
  ordinal : Nat
  parameter : Nat
  positive : Bool
  support : Option Condition

structure Compiler where
  parameters : List Value
  textLeaves : List TextLeaf

def Compiler.new : Compiler where
  parameters := []
  textLeaves := []

def Compiler.bind (compiler : Compiler) (value : Value) : Nat × Compiler :=
  (compiler.parameters.length + 1, { compiler with parameters := compiler.parameters ++ [value] })

def Compiler.pushLeaf (compiler : Compiler) (parameter : Nat) (positive : Bool) : Nat × Compiler :=
  let ordinal := compiler.textLeaves.length
  (ordinal, { compiler with
    textLeaves := compiler.textLeaves ++ [{ ordinal, parameter, positive, support := none }] })

def invalidAttendeeCount (input : List Char) (span : SearchSpan) : SearchQueryError :=
  .new input .invalidFieldValue span "`attendees` takes a whole number"

def compileField (input : List Char) (field : SearchField) (value : String) (span : SearchSpan)
    (compiler : Compiler) : Except SearchQueryError (Test × Compiler) :=
  match field with
  | .kind =>
    let (parameter, compiler) := compiler.bind (.text value)
    .ok (.kindIs parameter, compiler)
  | .project =>
    let (parameter, compiler) := compiler.bind (.text value)
    .ok (.projectIs parameter, compiler)
  | .tag =>
    let (parameter, compiler) := compiler.bind (.text value)
    .ok (.tagged parameter, compiler)
  | .attendees =>
    match parseCountComparison value with
    | none => .error (invalidAttendeeCount input span)
    | some (comparison, count) =>
      let (parameter, compiler) := compiler.bind (.integer count)
      .ok (.attendees comparison parameter, compiler)

mutual

def compileExpression (isAlphanumeric : Char → Bool) (input : List Char) :
    SearchExpr → Bool → Compiler → Except SearchQueryError (CompiledExpression × Compiler)
  | .text value mode span, negated, compiler => do
      let fts ← ftsExpression isAlphanumeric input value mode span
      let (parameter, compiler) := compiler.bind (.text fts)
      let (ordinal, compiler) := compiler.pushLeaf parameter (!negated)
      let predicate := Condition.test (.existsText ordinal)
      if negated then pure (.predicate (.not predicate), compiler)
      else pure (.positiveText ordinal predicate, compiler)
  | .field field value span, negated, compiler => do
      let (test, compiler) ← compileField input field value span compiler
      let predicate := Condition.test test
      pure (.predicate (if negated then .not predicate else predicate), compiler)
  | .all children _, negated, compiler => do
      let (children, compiler) ← compileChildren isAlphanumeric input children negated compiler
      pure (if negated then .any children else .all children, compiler)
  | .any children _, negated, compiler => do
      let (children, compiler) ← compileChildren isAlphanumeric input children negated compiler
      pure (if negated then .all children else .any children, compiler)
  | .not child _, negated, compiler =>
    compileExpression isAlphanumeric input child (!negated) compiler

def compileChildren (isAlphanumeric : Char → Bool) (input : List Char) :
    List SearchExpr → Bool → Compiler → Except SearchQueryError (List CompiledExpression × Compiler)
  | [], _, compiler => pure ([], compiler)
  | child :: rest, negated, compiler => do
      let (compiled, compiler) ← compileExpression isAlphanumeric input child negated compiler
      let (others, compiler) ← compileChildren isAlphanumeric input rest negated compiler
      pure (compiled :: others, compiler)

end

/-- The statement: what its `WHERE` clause, text tables and parameters are. -/
structure CompiledQuery where
  condition : Condition
  textLeaves : List TextLeaf
  parameters : List Value
  limitParameter : Nat

def TextLeaf.supportedBy (leaf : TextLeaf) (support : Option Condition) : TextLeaf :=
  if leaf.positive then { leaf with support } else leaf

def compile (isAlphanumeric : Char → Bool) (input : List Char) (expression : SearchExpr)
    (limit : Nat) : Except SearchQueryError CompiledQuery := do
  let (compiled, compiler) ← compileExpression isAlphanumeric input expression false .new
  let support := compiled.collectPositiveSupport .one
    (List.replicate compiler.textLeaves.length none)
  let textLeaves := List.zipWith TextLeaf.supportedBy compiler.textLeaves support
  let (limitParameter, compiler) := compiler.bind (.integer (min limit (2 ^ 63 - 1)))
  pure { condition := compiled.render, textLeaves, parameters := compiler.parameters,
         limitParameter }

end Clepsydra.Search
