import Clepsydra.Library.Kleene

/-!
Owns: the fragment of SQLite's expression language that a `WHERE` clause with positional
placeholders needs, evaluated in three values, and the place of a value in an `ORDER BY`.

Does not own: column affinity. A comparison is between values of one storage class, or an integer
and a real.
-/

namespace Clepsydra.Library.Sqlite

open List Option

/-! ### Values -/

inductive Value where
  | null
  | integer (value : Int)
  | real (value : ℚ)
  | text (value : String)
deriving DecidableEq

def Value.ofText : Option String → Value
  | some value => .text value
  | none => .null

inductive CompareOp where
  | eq | ne | lt | le | gt | ge
deriving DecidableEq

def CompareOp.accepts : CompareOp → Ordering → Bool
  | .eq, order => order == .eq
  | .ne, order => order != .eq
  | .lt, order => order == .lt
  | .le, order => order != .gt
  | .gt, order => order == .gt
  | .ge, order => order != .lt

def compareText (left right : String) : Ordering :=
  if left = right then .eq else if left < right then .lt else .gt

def compareNumber (left right : ℚ) : Ordering :=
  if left = right then .eq else if left < right then .lt else .gt

def compareStored : Value → Value → Ordering
  | .integer left, .integer right => compareNumber left right
  | .integer left, .real right => compareNumber left right
  | .real left, .integer right => compareNumber left right
  | .real left, .real right => compareNumber left right
  | .text left, .text right => compareText left right
  | .text _, _ => .gt
  | _, .text _ => .lt
  | _, _ => .eq

def compareValues (op : CompareOp) : Value → Value → Option Bool
  | .null, _ => none
  | _, .null => none
  | left, right => some (op.accepts (compareStored left right))

/-! ### Places

`ORDER BY` sorts what a comparison leaves unknown too: NULL comes first. -/

def Value.place : Value → Nat ×ₗ ℚ ×ₗ String
  | .null => toLex (0, toLex (0, ""))
  | .integer value => toLex (1, toLex (value, ""))
  | .real value => toLex (1, toLex (value, ""))
  | .text value => toLex (2, toLex (0, value))

def foldAscii (character : Char) : Char :=
  if 'A' ≤ character ∧ character ≤ 'Z' then Char.ofNat (character.toNat + 32) else character

/-- What a text is compared by under `COLLATE NOCASE`. -/
def noCase (text : String) : String := String.ofList (text.toList.map foldAscii)

/-! ### `LIKE` -/

/-- One element of a `LIKE` pattern once its escapes are read. -/
inductive LikeToken where
  | anyRun
  | anyChar
  | literal (character : Char)
deriving DecidableEq

@[grind =] def likeTokens (escape : Char) : List Char → Option (List LikeToken)
  | [] => some []
  | character :: rest =>
    if character = escape then
      match rest with
      | [] => none
      | escaped :: rest => (likeTokens escape rest).map (.literal escaped :: ·)
    else if character = '%' then
      (likeTokens escape rest).map (.anyRun :: ·)
    else if character = '_' then
      (likeTokens escape rest).map (.anyChar :: ·)
    else
      (likeTokens escape rest).map (.literal character :: ·)

theorem likeTokens_plain {escape character : Char} (rest : List Char)
    (notEscape : character ≠ escape) (notPercent : character ≠ '%')
    (notUnderscore : character ≠ '_') :
    likeTokens escape (character :: rest)
      = (likeTokens escape rest).map (.literal character :: ·) := by
  rw [likeTokens.eq_def]
  simp only [if_neg notEscape, if_neg notPercent, if_neg notUnderscore]

theorem likeTokens_percent {escape : Char} (rest : List Char) (notEscape : '%' ≠ escape) :
    likeTokens escape ('%' :: rest) = (likeTokens escape rest).map (.anyRun :: ·) := by
  rw [likeTokens.eq_def]
  simp only [if_neg notEscape, if_true]

@[grind =] def likeMatches : List LikeToken → List Char → Bool
  | [], text => text.isEmpty
  | .anyRun :: tokens, text => text.tails.any (likeMatches tokens)
  | .anyChar :: _, [] => false
  | .anyChar :: tokens, _ :: text => likeMatches tokens text
  | .literal _ :: _, [] => false
  | .literal expected :: tokens, actual :: text =>
    foldAscii expected == foldAscii actual && likeMatches tokens text

/-- `subject LIKE pattern ESCAPE escape` on texts. -/
def likeText (escape : Char) (pattern subject : String) : Bool :=
  match likeTokens escape pattern.toList with
  | some tokens => likeMatches tokens subject.toList
  | none => false

/-- `LIKE` on values: unknown when a side is NULL. -/
def likeValues (escape : Char) (pattern subject : Value) : Option Bool :=
  match subject, pattern with
  | .null, _ => none
  | _, .null => none
  | .text subject, .text pattern => some (likeText escape pattern subject)
  | _, _ => some false

/-! ### Clauses

`τ` names the tables a subquery may read, `γ` the columns, and `π` is what a
placeholder carries: nothing in the text that is prepared, a value once bound. -/

inductive Operand (γ π : Type) where
  | column (name : γ)
  | placeholder (content : π)
  | literal (text : String)

/-- A `WHERE` clause. -/
inductive Clause (τ γ π : Type) where
  | constant (value : Bool)
  | compare (left : Operand γ π) (op : CompareOp) (right : Operand γ π)
  | isNull (subject : Operand γ π)
  | isNotNull (subject : Operand γ π)
  | like (negated : Bool) (subject : Operand γ π) (leading : Bool) (pattern : Operand γ π)
      (trailing : Bool)
  | inList (subject : Operand γ π) (items : List (Operand γ π))
  | conj (clauses : List (Clause τ γ π))
  | disj (clauses : List (Clause τ γ π))
  | paren (clause : Clause τ γ π)
  | neg (clause : Clause τ γ π)
  | existsIn (negated : Bool) (table : τ) (filter : Clause τ γ π)

abbrev Template (τ γ : Type) := Clause τ γ Unit

abbrev Bound (τ γ : Type) := Clause τ γ Value

/-! ### Binding placeholders

SQLite numbers bare `?` placeholders in the order of their appearance, so binding
walks the clause left to right and takes one value for each. -/

section Binding

variable {τ γ : Type}

def Operand.bind : Operand γ Unit → List Value → Option (Operand γ Value × List Value)
  | .column name, values => some (.column name, values)
  | .literal text, values => some (.literal text, values)
  | .placeholder _, [] => none
  | .placeholder _, value :: values => some (.placeholder value, values)

def Operand.bindList :
    List (Operand γ Unit) → List Value → Option (List (Operand γ Value) × List Value)
  | [], values => some ([], values)
  | operand :: operands, values => do
      let (head, values) ← operand.bind values
      let (tail, values) ← Operand.bindList operands values
      some (head :: tail, values)

mutual

@[grind =] def Clause.bind : Template τ γ → List Value → Option (Bound τ γ × List Value)
  | .constant value, values => some (.constant value, values)
  | .compare left op right, values => do
      let (left, values) ← left.bind values
      let (right, values) ← right.bind values
      some (.compare left op right, values)
  | .isNull subject, values => do
      let (subject, values) ← subject.bind values
      some (.isNull subject, values)
  | .isNotNull subject, values => do
      let (subject, values) ← subject.bind values
      some (.isNotNull subject, values)
  | .like negated subject leading pattern trailing, values => do
      let (subject, values) ← subject.bind values
      let (pattern, values) ← pattern.bind values
      some (.like negated subject leading pattern trailing, values)
  | .inList subject items, values => do
      let (subject, values) ← subject.bind values
      let (items, values) ← Operand.bindList items values
      some (.inList subject items, values)
  | .conj clauses, values => do
      let (clauses, values) ← Clause.bindList clauses values
      some (.conj clauses, values)
  | .disj clauses, values => do
      let (clauses, values) ← Clause.bindList clauses values
      some (.disj clauses, values)
  | .paren clause, values => do
      let (clause, values) ← clause.bind values
      some (.paren clause, values)
  | .neg clause, values => do
      let (clause, values) ← clause.bind values
      some (.neg clause, values)
  | .existsIn negated table filter, values => do
      let (filter, values) ← filter.bind values
      some (.existsIn negated table filter, values)

def Clause.bindList : List (Template τ γ) → List Value → Option (List (Bound τ γ) × List Value)
  | [], values => some ([], values)
  | clause :: clauses, values => do
      let (head, values) ← clause.bind values
      let (tail, values) ← Clause.bindList clauses values
      some (head :: tail, values)

end

/-- A clause takes exactly `values`, leaving whatever follows them, and becomes `bound`. -/
def Clause.Takes (clause : Template τ γ) (values : List Value) (bound : Bound τ γ) : Prop :=
  ∀ rest, clause.bind (values ++ rest) = some (bound, rest)

def Clause.TakesAll (clauses : List (Template τ γ)) (values : List Value)
    (bound : List (Bound τ γ)) : Prop :=
  ∀ rest, Clause.bindList clauses (values ++ rest) = some (bound, rest)

theorem Clause.takesAll_nil : Clause.TakesAll ([] : List (Template τ γ)) [] [] := fun _ => rfl

variable {clause : Template τ γ} {clauses : List (Template τ γ)}

theorem Clause.TakesAll.cons {headValues tailValues : List Value} {head : Bound τ γ}
    {tail : List (Bound τ γ)} (takesHead : clause.Takes headValues head)
    (takesTail : Clause.TakesAll clauses tailValues tail) :
    Clause.TakesAll (clause :: clauses) (headValues ++ tailValues) (head :: tail) := by
  intro rest
  rw [append_assoc]
  simp only [Clause.bindList, takesHead (tailValues ++ rest), takesTail rest, bind_eq_bind,
    bind_some]

variable {values : List Value}

theorem Clause.TakesAll.conj {bound : List (Bound τ γ)}
    (takes : Clause.TakesAll clauses values bound) :
    Clause.Takes (.conj clauses) values (.conj bound) := by
  intro rest
  simp only [Clause.bind, takes rest, bind_eq_bind, bind_some]

theorem Clause.TakesAll.disj {bound : List (Bound τ γ)}
    (takes : Clause.TakesAll clauses values bound) :
    Clause.Takes (.disj clauses) values (.disj bound) := by
  intro rest
  simp only [Clause.bind, takes rest, bind_eq_bind, bind_some]

theorem Clause.Takes.paren {bound : Bound τ γ} (takes : clause.Takes values bound) :
    Clause.Takes (.paren clause) values (.paren bound) := by
  intro rest
  simp only [Clause.bind, takes rest, bind_eq_bind, bind_some]

theorem Clause.Takes.neg {bound : Bound τ γ} (takes : clause.Takes values bound) :
    Clause.Takes (.neg clause) values (.neg bound) := by
  intro rest
  simp only [Clause.bind, takes rest, bind_eq_bind, bind_some]

theorem Operand.bindList_placeholders (values rest : List Value) :
    Operand.bindList (List.replicate values.length (.placeholder () : Operand γ Unit))
        (values ++ rest)
      = some (values.map .placeholder, rest) := by
  induction values with
  | nil => rfl
  | cons head tail ih =>
    simp only [length_cons, replicate_succ, cons_append, Operand.bindList,
      Operand.bind, ih, bind_eq_bind, bind_some, map_cons]

end Binding

/-! ### Counting placeholders -/

section Counting

variable {τ γ π : Type}

def Operand.placeholders : Operand γ π → Nat
  | .placeholder _ => 1
  | _ => 0

mutual

def Clause.placeholders : Clause τ γ π → Nat
  | .constant _ => 0
  | .compare left _ right => left.placeholders + right.placeholders
  | .isNull subject => subject.placeholders
  | .isNotNull subject => subject.placeholders
  | .like _ subject _ pattern _ => subject.placeholders + pattern.placeholders
  | .inList subject items => subject.placeholders + (items.map Operand.placeholders).sum
  | .conj clauses => Clause.placeholdersAll clauses
  | .disj clauses => Clause.placeholdersAll clauses
  | .paren clause => clause.placeholders
  | .neg clause => clause.placeholders
  | .existsIn _ _ filter => filter.placeholders

def Clause.placeholdersAll : List (Clause τ γ π) → Nat
  | [] => 0
  | clause :: clauses => clause.placeholders + Clause.placeholdersAll clauses

end

variable {values : List Value}

theorem Operand.length_of_bind {operand : Operand γ Unit} {bound : Operand γ Value}
    {rest : List Value} (binds : operand.bind values = some (bound, rest)) :
    values.length = operand.placeholders + rest.length := by
  cases operand with
  | column | literal =>
    obtain ⟨-, rfl⟩ := Prod.mk.inj (some.inj binds)
    simp [placeholders]
  | placeholder content =>
    cases values with
    | nil => exact nomatch binds
    | cons value values =>
      obtain ⟨-, rfl⟩ := Prod.mk.inj (some.inj binds)
      rw [placeholders, length_cons]
      omega

theorem Operand.length_of_bindList {operands : List (Operand γ Unit)}
    {bound : List (Operand γ Value)} {rest : List Value}
    (binds : Operand.bindList operands values = some (bound, rest)) :
    values.length = (operands.map Operand.placeholders).sum + rest.length := by
  induction operands generalizing bound values with
  | nil =>
    obtain ⟨-, rfl⟩ := Prod.mk.inj (some.inj binds)
    simp
  | cons operand operands ih =>
    simp only [Operand.bindList, bind_eq_bind, bind_eq_some_iff] at binds
    have ⟨⟨head, middle⟩, first, ⟨tail, last⟩, later, same⟩ := binds
    obtain ⟨-, rfl⟩ := Prod.mk.inj (some.inj same)
    have counted := Operand.length_of_bind first
    have others := ih later
    dsimp only at others ⊢
    rw [map_cons, sum_cons]
    omega

mutual

theorem Clause.length_of_bind : ∀ {clause : Template τ γ} {bound : Bound τ γ}
    {values rest : List Value}, clause.bind values = some (bound, rest) →
      values.length = clause.placeholders + rest.length
  | .constant _, _, _, _, binds => by
    obtain ⟨-, rfl⟩ := Prod.mk.inj (some.inj binds)
    simp [placeholders]
  | .compare _ _ _, _, _, _, binds => by
    simp only [Clause.bind, bind_eq_bind, bind_eq_some_iff] at binds
    have ⟨⟨left, middle⟩, first, ⟨right, last⟩, later, same⟩ := binds
    obtain ⟨-, rfl⟩ := Prod.mk.inj (some.inj same)
    have counted := Operand.length_of_bind first
    have others := Operand.length_of_bind later
    dsimp only at others ⊢
    rw [placeholders]
    omega
  | .isNull _, _, _, _, binds => by
    simp only [Clause.bind, bind_eq_bind, bind_eq_some_iff] at binds
    have ⟨⟨subject, middle⟩, first, same⟩ := binds
    obtain ⟨-, rfl⟩ := Prod.mk.inj (some.inj same)
    exact Operand.length_of_bind first
  | .isNotNull _, _, _, _, binds => by
    simp only [Clause.bind, bind_eq_bind, bind_eq_some_iff] at binds
    have ⟨⟨subject, middle⟩, first, same⟩ := binds
    obtain ⟨-, rfl⟩ := Prod.mk.inj (some.inj same)
    exact Operand.length_of_bind first
  | .like _ _ _ _ _, _, _, _, binds => by
    simp only [Clause.bind, bind_eq_bind, bind_eq_some_iff] at binds
    have ⟨⟨subject, middle⟩, first, ⟨pattern, last⟩, later, same⟩ := binds
    obtain ⟨-, rfl⟩ := Prod.mk.inj (some.inj same)
    have counted := Operand.length_of_bind first
    have others := Operand.length_of_bind later
    dsimp only at others ⊢
    rw [placeholders]
    omega
  | .inList _ _, _, _, _, binds => by
    simp only [Clause.bind, bind_eq_bind, bind_eq_some_iff] at binds
    have ⟨⟨subject, middle⟩, first, ⟨items, last⟩, later, same⟩ := binds
    obtain ⟨-, rfl⟩ := Prod.mk.inj (some.inj same)
    have counted := Operand.length_of_bind first
    have others := Operand.length_of_bindList later
    dsimp only at others ⊢
    rw [placeholders]
    omega
  | .conj _, _, _, _, binds => by
    simp only [Clause.bind, bind_eq_bind, bind_eq_some_iff] at binds
    have ⟨⟨clauses, middle⟩, first, same⟩ := binds
    obtain ⟨-, rfl⟩ := Prod.mk.inj (some.inj same)
    exact Clause.length_of_bindList first
  | .disj _, _, _, _, binds => by
    simp only [Clause.bind, bind_eq_bind, bind_eq_some_iff] at binds
    have ⟨⟨clauses, middle⟩, first, same⟩ := binds
    obtain ⟨-, rfl⟩ := Prod.mk.inj (some.inj same)
    exact Clause.length_of_bindList first
  | .paren _, _, _, _, binds => by
    simp only [Clause.bind, bind_eq_bind, bind_eq_some_iff] at binds
    have ⟨⟨inner, middle⟩, first, same⟩ := binds
    obtain ⟨-, rfl⟩ := Prod.mk.inj (some.inj same)
    rw [placeholders]
    exact Clause.length_of_bind first
  | .neg _, _, _, _, binds => by
    simp only [Clause.bind, bind_eq_bind, bind_eq_some_iff] at binds
    have ⟨⟨inner, middle⟩, first, same⟩ := binds
    obtain ⟨-, rfl⟩ := Prod.mk.inj (some.inj same)
    rw [placeholders]
    exact Clause.length_of_bind first
  | .existsIn _ _ _, _, _, _, binds => by
    simp only [Clause.bind, bind_eq_bind, bind_eq_some_iff] at binds
    have ⟨⟨inner, middle⟩, first, same⟩ := binds
    obtain ⟨-, rfl⟩ := Prod.mk.inj (some.inj same)
    rw [placeholders]
    exact Clause.length_of_bind first

theorem Clause.length_of_bindList : ∀ {clauses : List (Template τ γ)}
    {bound : List (Bound τ γ)} {values rest : List Value},
      Clause.bindList clauses values = some (bound, rest) →
      values.length = Clause.placeholdersAll clauses + rest.length
  | [], _, _, _, binds => by
    obtain ⟨-, rfl⟩ := Prod.mk.inj (some.inj binds)
    simp [placeholdersAll]
  | _ :: _, _, _, _, binds => by
    simp only [Clause.bindList, bind_eq_bind, bind_eq_some_iff] at binds
    have ⟨⟨head, middle⟩, first, ⟨tail, last⟩, later, same⟩ := binds
    obtain ⟨-, rfl⟩ := Prod.mk.inj (some.inj same)
    have counted := Clause.length_of_bind first
    have others := Clause.length_of_bindList later
    dsimp only at others ⊢
    rw [placeholdersAll]
    omega

end

theorem Clause.Takes.length {clause : Template τ γ} {bound : Bound τ γ}
    (takes : clause.Takes values bound) : clause.placeholders = values.length := by
  have counted := Clause.length_of_bind (takes [])
  rw [append_nil] at counted
  simpa using counted.symm

end Counting

/-! ### Evaluation -/

section Evaluation

variable {τ γ : Type}

abbrev Database (τ γ : Type) := τ → List (γ → Option Value)

abbrev Scope (γ : Type) := γ → Value

def Scope.extend (scope : Scope γ) (row : γ → Option Value) : Scope γ :=
  fun name => (row name).getD (scope name)

def Operand.eval (scope : Scope γ) : Operand γ Value → Value
  | .column name => scope name
  | .placeholder value => value
  | .literal text => .text text

/-- Surrounds a pattern operand with the wildcards of a `LIKE` clause. -/
def wildcards (leading trailing : Bool) : Value → Value
  | .text text =>
    .text ((if leading then "%" else "") ++ text ++ (if trailing then "%" else ""))
  | other => other

mutual

/-- The truth value of a bound clause on the row `scope`. -/
@[grind =] def Clause.eval (database : Database τ γ) : Bound τ γ → Scope γ → Option Bool
  | .constant value, _ => some value
  | .compare left op right, scope => compareValues op (left.eval scope) (right.eval scope)
  | .isNull subject, scope => some (subject.eval scope == .null)
  | .isNotNull subject, scope => some (subject.eval scope != .null)
  | .like negated subject leading pattern trailing, scope =>
    let matched :=
      likeValues '\\' (wildcards leading trailing (pattern.eval scope)) (subject.eval scope)
    if negated then Kleene.not matched else matched
  | .inList subject items, scope =>
    Kleene.any (items.map fun item => compareValues .eq (subject.eval scope) (item.eval scope))
  | .conj clauses, scope => Kleene.all (Clause.evalList database clauses scope)
  | .disj clauses, scope => Kleene.any (Clause.evalList database clauses scope)
  | .paren clause, scope => clause.eval database scope
  | .neg clause, scope => Kleene.not (clause.eval database scope)
  | .existsIn negated table filter, scope =>
    let found :=
      (database table).any fun row => filter.eval database (scope.extend row) == some true
    some (if negated then !found else found)

def Clause.evalList (database : Database τ γ) : List (Bound τ γ) → Scope γ → List (Option Bool)
  | [], _ => []
  | clause :: clauses, scope =>
    clause.eval database scope :: Clause.evalList database clauses scope

end

end Evaluation

/-! ### Literal patterns

A pattern whose only wildcards are the `%` put around an escaped literal is a
start, infix or end test up to ASCII case. -/

/-- Whether `text` starts with `needle`, up to ASCII case. -/
def startsWithFolded (needle text : List Char) : Bool :=
  (needle.map foldAscii).isPrefixOf (text.map foldAscii)

/-- Whether `text` ends with `needle`, up to ASCII case. -/
def endsWithFolded (needle text : List Char) : Bool :=
  text.tails.any fun tail => needle.map foldAscii == tail.map foldAscii

/-- Whether `needle` occurs in `text`, up to ASCII case. -/
def containsFolded (needle text : List Char) : Bool := text.tails.any (startsWithFolded needle)

theorem likeMatches_literals_append (needle : List Char) (tokens : List LikeToken)
    (text : List Char) :
    likeMatches (needle.map .literal ++ tokens) text
      = (startsWithFolded needle text && likeMatches tokens (text.drop needle.length)) := by
  induction needle generalizing text with
  | nil => simp [startsWithFolded]
  | cons head tail ih =>
    cases text with
    | nil => simp [likeMatches, startsWithFolded]
    | cons first rest =>
      simp only [map_cons, cons_append, likeMatches, ih, startsWithFolded, List.isPrefixOf,
        length_cons, drop_succ_cons, Bool.and_assoc]

theorem likeMatches_anyRun (text : List Char) : likeMatches [.anyRun] text = true := by
  simp only [likeMatches, List.any_eq_true]
  exact ⟨[], (mem_tails _ _).2 (nil_suffix), rfl⟩

theorem likeMatches_start (needle text : List Char) :
    likeMatches (needle.map .literal ++ [.anyRun]) text = startsWithFolded needle text := by
  rw [likeMatches_literals_append, likeMatches_anyRun, Bool.and_true]

theorem likeMatches_infix (needle text : List Char) :
    likeMatches (.anyRun :: (needle.map .literal ++ [.anyRun])) text
      = containsFolded needle text := by
  rw [likeMatches, funext (likeMatches_start needle)]
  rfl

theorem likeMatches_exact (needle text : List Char) :
    likeMatches (needle.map .literal) text = (needle.map foldAscii == text.map foldAscii) := by
  induction needle generalizing text with
  | nil => cases text <;> rfl
  | cons head tail ih =>
    cases text with
    | nil => rfl
    | cons first rest =>
      simp only [map_cons, likeMatches, ih]
      rfl

theorem likeMatches_end (needle text : List Char) :
    likeMatches (.anyRun :: needle.map .literal) text = endsWithFolded needle text := by
  rw [likeMatches, funext (likeMatches_exact needle)]
  rfl

def plainTokens (pattern : List Char) : List LikeToken := pattern.map fun character =>
    if character = '%' then .anyRun else if character = '_' then .anyChar else .literal character

/-- `subject LIKE pattern` on texts. -/
def likePlain (pattern subject : String) : Bool :=
  likeMatches (plainTokens pattern.toList) subject.toList

theorem likeMatches_plain_append (start rest : List Char) :
    likeMatches (plainTokens (start ++ ['%'])) (start ++ rest) = true := by
  induction start with
  | nil => exact likeMatches_anyRun rest
  | cons character start ih =>
    rw [plainTokens, cons_append, map_cons]
    change likeMatches (_ :: plainTokens (start ++ ['%'])) (character :: (start ++ rest)) = true
    split_ifs
    · rw [likeMatches, List.any_eq_true]
      exact ⟨start ++ rest, (mem_tails _ _).2 (suffix_cons _ _), ih⟩
    · exact ih
    · rw [likeMatches, beq_self_eq_true, Bool.true_and, ih]

/-! ### Comparison lemmas -/

@[simp] theorem compareValues_null_left (op : CompareOp) (value : Value) :
    compareValues op .null value = none := by
  cases value <;> rfl

theorem compareValues_of_ne_null (op : CompareOp) {left right : Value} (leftStored : left ≠ .null)
    (rightStored : right ≠ .null) :
    compareValues op left right = some (op.accepts (compareStored left right)) := by
  cases left <;> cases right <;> first | rfl | contradiction

theorem compareValues_text_eq (left right : String) :
    compareValues .eq (.text left) (.text right) = some (left == right) := by
  simp only [compareValues, compareStored, compareText, CompareOp.accepts]
  by_cases same : left = right
  · simp [same]
  · by_cases less : left < right <;> simp [same, less]

theorem compareNumber_eq_iff {left right : ℚ} : compareNumber left right = .eq ↔ left = right := by
  unfold compareNumber
  by_cases same : left = right
  · simp [same]
  · by_cases less : left < right <;> simp [same, less]

theorem Value.place_eq_null_iff {value : Value} : value.place = Value.null.place ↔ value = .null := by
  cases value <;> simp [Value.place]

theorem compareValues_eq_iff_place {left right : Value} (rightStored : right ≠ .null) :
    compareValues .eq left right = some true ↔ left.place = right.place := by
  cases left with
  | null =>
    rw [compareValues_null_left, eq_comm (a := Value.null.place), Value.place_eq_null_iff]
    exact iff_of_false nofun rightStored
  | text left =>
    cases right with
    | null => exact absurd rfl rightStored
    | text right => simp [compareValues_text_eq, Value.place]
    | integer right | real right =>
      simp [compareValues, compareStored, CompareOp.accepts, Value.place]
  | integer left | real left =>
    cases right with
    | null => exact absurd rfl rightStored
    | text right => simp [compareValues, compareStored, CompareOp.accepts, Value.place]
    | integer right | real right =>
      simp [compareValues, compareStored, compareNumber_eq_iff, CompareOp.accepts, Value.place]

end Clepsydra.Library.Sqlite
