import Clepsydra.Vault.Canonical

/-!
Owns: search expressions as a value, with the span each was read from; the count an `attendees`
field is compared with; and the errors of a query.

Proves: the induction rule of expressions.
-/

namespace Clepsydra.Search

open Vault

/-! ### Leaves -/

structure SearchSpan where
  start : Nat
  stop : Nat
deriving DecidableEq

inductive TextMode where
  | leading
  | phrase

inductive SearchField where
  | kind
  | tag
  | project
  | attendees

inductive CountComparison where
  | equal
  | greater
  | greaterOrEqual
  | less
  | lessOrEqual

def CountComparison.asStr : CountComparison → String
  | .equal => "="
  | .greater => ">"
  | .greaterOrEqual => ">="
  | .less => "<"
  | .lessOrEqual => "<="

def splitComparison : List Char → CountComparison × List Char
  | '>' :: '=' :: rest => (.greaterOrEqual, rest)
  | '<' :: '=' :: rest => (.lessOrEqual, rest)
  | '>' :: rest => (.greater, rest)
  | '<' :: rest => (.less, rest)
  | '=' :: rest => (.equal, rest)
  | digits => (.equal, digits)

def decimalValue (digits : List Char) : Nat :=
  digits.foldl (fun value digit => value * 10 + (digit.toNat - '0'.toNat)) 0

/-- `parse_count_comparison`: ASCII digits only, and a count that fits 64 bits. -/
def parseCountComparison (value : String) : Option (CountComparison × Nat) :=
  let (comparison, digits) := splitComparison value.toList
  if digits.isEmpty || !digits.all (fun digit => '0' ≤ digit && digit ≤ '9') then none
  else
    let count := decimalValue digits
    if count < 2 ^ 63 then some (comparison, count) else none

/-! ### Expressions -/

inductive SearchExpr where
  | text (value : String) (mode : TextMode) (span : SearchSpan)
  | field (field : SearchField) (value : String) (span : SearchSpan)
  | all (children : List SearchExpr) (span : SearchSpan)
  | any (children : List SearchExpr) (span : SearchSpan)
  | not (child : SearchExpr) (span : SearchSpan)

namespace SearchExpr

@[elab_as_elim]
theorem inductionOn {motive : SearchExpr → Prop}
    (text : ∀ value mode span, motive (.text value mode span))
    (field : ∀ field value span, motive (.field field value span))
    (all : ∀ children span, (∀ child ∈ children, motive child) → motive (.all children span))
    (any : ∀ children span, (∀ child ∈ children, motive child) → motive (.any children span))
    (not : ∀ child span, motive child → motive (.not child span))
    (expression : SearchExpr) : motive expression := by
  refine @SearchExpr.rec motive (fun children => ∀ child ∈ children, motive child)
    text field all any not ?_ ?_ expression
  · exact fun _ member => nomatch member
  · intro head tail holdsHead holdsTail child member
    rcases List.mem_cons.1 member with rfl | later
    · exact holdsHead
    · exact holdsTail child later

def span : SearchExpr → SearchSpan
  | text _ _ span => span
  | field _ _ span => span
  | all _ span => span
  | any _ span => span
  | not _ span => span

def setSpan (newSpan : SearchSpan) : SearchExpr → SearchExpr
  | text value mode _ => text value mode newSpan
  | field name value _ => field name value newSpan
  | all children _ => all children newSpan
  | any children _ => any children newSpan
  | not child _ => not child newSpan

end SearchExpr

/-! ### Errors -/

inductive SearchDiagnosticKind where
  | unknownField
  | missingFieldValue
  | unknownKind
  | unmatchedQuote
  | unexpectedParenthesis
  | unmatchedParenthesis
  | danglingOr
  | danglingNot
  | emptyGroup
  | emptyValue
  | unexpectedColon
  | expectedExpression
  | queryTooComplex
  | invalidFieldValue
deriving DecidableEq

structure SearchQueryError where
  message : String
  kind : SearchDiagnosticKind
  span : SearchSpan
  column : Nat
deriving DecidableEq

def charactersBefore : List Char → Nat → Nat
  | [], _ => 0
  | character :: rest, offset =>
    if offset = 0 then 0 else charactersBefore rest (offset - character.utf8Size) + 1

def SearchQueryError.new (input : List Char) (kind : SearchDiagnosticKind) (span : SearchSpan)
    (message : String) : SearchQueryError :=
  let column := charactersBefore input span.start + 1
  { message := message ++ " at column " ++ toString column, kind, span, column }

end Clepsydra.Search
