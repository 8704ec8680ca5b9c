import Clepsydra.Bases.QueryMeaning
import Clepsydra.Library.Fallible

/-!
Contract: the clause a filter compiles to takes exactly its own parameters, and evaluates on a row
to the three-valued reading of the filter there.
-/

namespace Clepsydra.Bases

open Library Library.Sqlite Vault List Function Option

/-! ### Scalar comparisons -/

/-- The clause takes exactly its parameters, and evaluates to the truth value on the row. -/
def SqlFilter.Realizes (compiled : SqlFilter) (tables : Tables) (row : PageRow)
    (meaning : Option Bool) : Prop :=
  ∃ bound, compiled.clause.Takes compiled.params bound
    ∧ bound.eval tables.database row.scope = meaning

def openOnNull (cell : Value) (test : Bool) : Option Bool :=
  if cell = .null then none else some test

theorem compareValues_eq_openOnNull (op : CompareOp) (cell : Value) {param : Value}
    (stored : param ≠ .null) :
    compareValues op cell param = openOnNull cell (op.accepts (compareStored cell param)) := by
  unfold openOnNull
  split_ifs with null
  · rw [null, compareValues_null_left]
  · exact compareValues_of_ne_null op null stored

theorem likeValues_eq_openOnNull (leading trailing : Bool) {value : Json} {needle : String}
    (literal : literalText value = some needle) (cell : Value) :
    likeValues '\\'
        (wildcards leading trailing (.text (String.ofList (escapeLike needle.toList)))) cell
      = openOnNull cell (textTest (likeShape leading trailing) value cell) := by
  unfold openOnNull
  split_ifs with null
  · rw [null]
    rfl
  · exact likeValues_escaped leading trailing literal null

theorem any_isNull_not (cell : Value) (test : Bool) :
    Kleene.any [some (cell == .null), Kleene.not (openOnNull cell test)]
      = some (!(cell != .null && test)) := by
  by_cases null : cell = .null
  · subst null
    rfl
  · have stored : (cell == .null) = false := beq_eq_false_iff_ne.2 null
    simp only [openOnNull, if_neg null, Kleene.any, Kleene.not_some, Kleene.or_some, stored, bne,
      Bool.false_or, Bool.or_false, Bool.not_false, Bool.true_and]

theorem bindItems_eq_ok {bindItem : Json → Except QueryError Value} {items : List Json}
    {params : List Value} (bound : bindItems bindItem items = .ok params) :
    List.Forall₂ (fun item param => bindItem item = .ok param) items params := by
  induction items generalizing params with
  | nil =>
    simp only [bindItems, Except.ok.injEq] at bound
    exact bound ▸ .nil
  | cons item items ih =>
    have ⟨head, boundHead, bound⟩ := Fallible.of_bind_ok bound
    have ⟨tail, boundTail, bound⟩ := Fallible.of_bind_ok bound
    cases bound
    exact .cons boundHead (ih boundTail)

theorem inCandidates_eq_ok {field : String} {value : Json} {items : List Json}
    (success : inCandidates field value = .ok items) : value = .array items := by
  cases value <;> simp_all [inCandidates, Json.asArray]

theorem any_compareValues_of_ne_null {field : String} {type : PropertyType} {items : List Json}
    {params : List Value}
    (bound : List.Forall₂ (fun item param => bindValue field type item = .ok param) items params)
    {cell : Value} (stored : cell ≠ .null) :
    Kleene.any (params.map fun param => compareValues .eq cell param)
      = some (items.any (equalsLiteral type cell)) := by
  induction bound with
  | nil => rfl
  | cons boundHead _ ih =>
    rw [map_cons, Kleene.any, ih, compareValues_of_ne_null _ stored (bindValue_ne_null boundHead),
      Kleene.or_some, any_cons, equalsLiteral, literalOf_of_bindValue boundHead]
    rfl

theorem any_compareValues_null (params : List Value) :
    Kleene.any (params.map fun param => compareValues .eq .null param)
      = if params = [] then some false else none := by
  induction params with
  | nil => rfl
  | cons head tail ih =>
    rw [map_cons, Kleene.any, ih, compareValues_null_left]
    cases tail <;> rfl

def scalarMeaning (type : PropertyType) (op : Op) (value : Json) (today : NaiveDate)
    (cell : Value) : Option Bool :=
  Kleene.ofDecided (scalarDecided op value cell) (scalarHolds type op value today cell)

def Op.opensOnNull : Op → Bool
  | .isEmpty | .notEmpty | .ne | .notContains | .isIn => false
  | _ => true

theorem scalarMeaning_eq_openOnNull {op : Op} (opens : op.opensOnNull = true) (type : PropertyType)
    (value : Json) (today : NaiveDate) (cell : Value) :
    scalarMeaning type op value today cell
      = openOnNull cell (cellTest type false op value today cell) := by
  by_cases null : cell = .null
  · subst null
    cases op <;> first | contradiction | rfl
  · have stored : (cell != .null) = true := bne_iff_ne.2 null
    unfold scalarMeaning scalarDecided openOnNull
    rw [stored, Bool.true_or, Kleene.ofDecided_true, if_neg null]
    cases op <;> first | contradiction | simp only [scalarHolds, storedTest, stored, Bool.true_and]

section Scalar

variable {field : String} {sys : SysField} {column : Column} {op : Op} {value : Json}
  {today : NaiveDate} {compiled : SqlFilter} (tables : Tables) (row : PageRow)

private theorem compileScalarLike_eq_ok {supported : Bool} {clause : QueryTemplate}
    (success : compileScalarLike field supported op value clause = .ok compiled) :
    ∃ needle, literalText value = some needle
      ∧ compiled = ⟨clause, [.text (String.ofList (escapeLike needle.toList))]⟩ := by
  cases supported with
  | false => simp [compileScalarLike] at success
  | true =>
    have ⟨param, bound, success⟩ := Fallible.of_bind_ok success
    obtain ⟨needle, literal, rfl⟩ := bindLiteralContainsValue_text rfl bound
    cases success
    exact ⟨needle, literal, rfl⟩

private theorem realizes_like (leading trailing : Bool) {needle : String}
    (literal : literalText value = some needle) :
    SqlFilter.Realizes ⟨.like false (.column column) leading hole trailing,
        [.text (String.ofList (escapeLike needle.toList))]⟩
      tables row
      (openOnNull (row.scope column)
        (textTest (likeShape leading trailing) value (row.scope column))) :=
  ⟨.like false (.column column) leading (.placeholder _) trailing, fun _ => rfl,
    likeValues_eq_openOnNull leading trailing literal _⟩

private theorem realizes_compare (compareOp : CompareOp) {param : Value} (stored : param ≠ .null) :
    SqlFilter.Realizes ⟨.compare (.column column) compareOp hole, [param]⟩ tables row
      (openOnNull (row.scope column)
        (compareOp.accepts (compareStored (row.scope column) param))) :=
  ⟨.compare (.column column) compareOp (.placeholder param), fun _ => rfl,
    compareValues_eq_openOnNull compareOp _ stored⟩

private theorem scalarMeaning_negative {type : PropertyType} {positive : Op}
    (negative : (op = .ne ∧ positive = .eq) ∨ (op = .notContains ∧ positive = .contains))
    (cell : Value) :
    scalarMeaning type op value today cell
      = some (!(cell != .null && cellTest type false positive value today cell)) := by
  rcases negative with ⟨rfl, rfl⟩ | ⟨rfl, rfl⟩ <;>
    simp only [scalarMeaning, scalarDecided, scalarHolds, storedTest, Bool.or_true,
      Kleene.ofDecided_true]

private theorem compileScalar_in_realizes
    (success : compileScalar field sys column .isIn value today = .ok compiled) :
    compiled.Realizes tables row
      (scalarMeaning sys.propertyType .isIn value today (row.scope column)) := by
  have ⟨items, candidates, success⟩ := Fallible.of_bind_ok success
  have ⟨params, bound, success⟩ := Fallible.of_bind_ok success
  cases success
  obtain rfl := inCandidates_eq_ok candidates
  have boundItems := bindItems_eq_ok bound
  refine ⟨.inList (.column column) (params.map .placeholder), fun rest => ?_, ?_⟩
  · simp only [Clause.bind, Operand.bind, holes, hole, Operand.bindList_placeholders,
      bind_eq_bind, bind_some]
  · simp only [Clause.eval, Operand.eval, List.map_map, comp_def]
    by_cases null : row.scope column = .null
    · rw [null, any_compareValues_null]
      cases boundItems <;> rfl
    · have stored : (row.scope column != .null) = true := bne_iff_ne.2 null
      rw [any_compareValues_of_ne_null boundItems null]
      simp only [scalarMeaning, scalarDecided, stored, Bool.true_or, Kleene.ofDecided_true,
        scalarHolds, storedTest, Bool.true_and, cellTest, Json.asArray]

private theorem compileScalar_window_realizes (relative : op.isRelativeDate = true)
    (success : compileScalar field sys column op value today = .ok compiled) :
    compiled.Realizes tables row
      (scalarMeaning sys.propertyType op value today (row.scope column)) := by
  obtain ⟨window, found, rfl⟩ : ∃ window, relativeDateWindow op today = some window
      ∧ compiled = ⟨.paren (.conj [.compare (.column column) .ge hole,
          .compare (.column column) .lt hole]), bindRelativeWindow window⟩ := by
    cases op <;> first | contradiction | skip
    all_goals
      simp only [compileScalar] at success
      split at success
      · rename_i window _ found
        cases success
        exact ⟨window, found, rfl⟩
      · cases success
  refine ⟨.paren (.conj [.compare (.column column) .ge (.placeholder (.text window.1.format)),
    .compare (.column column) .lt (.placeholder (.text window.2.format))]), fun _ => rfl, ?_⟩
  have opens : op.opensOnNull = true := by cases op <;> first | contradiction | rfl
  rw [scalarMeaning_eq_openOnNull opens]
  simp only [Clause.eval, Clause.evalList, Operand.eval, Kleene.all]
  rw [compareValues_eq_openOnNull _ _ (by simp), compareValues_eq_openOnNull _ _ (by simp)]
  have test : cellTest sys.propertyType false op value today (row.scope column)
      = (compareStored (row.scope column) (.text window.1.format) != .lt
          && compareStored (row.scope column) (.text window.2.format) == .lt) := by
    cases op <;> first | contradiction | simp only [cellTest, found]
  rw [test]
  unfold openOnNull
  split_ifs with null
  · rfl
  · simp only [Kleene.and_some, CompareOp.accepts, Bool.and_true]

theorem compileScalar_realizes
    (success : compileScalar field sys column op value today = .ok compiled) :
    compiled.Realizes tables row
      (scalarMeaning sys.propertyType op value today (row.scope column)) := by
  cases op with
  | isEmpty =>
    cases success
    exact ⟨.isNull (.column column), fun _ => rfl, by
      simp [scalarMeaning, scalarDecided, scalarHolds, Clause.eval, Operand.eval]⟩
  | notEmpty =>
    cases success
    exact ⟨.isNotNull (.column column), fun _ => rfl, by
      simp [scalarMeaning, scalarDecided, scalarHolds, Clause.eval, Operand.eval]⟩
  | isIn => exact compileScalar_in_realizes tables row success
  | contains =>
    obtain ⟨needle, literal, rfl⟩ := compileScalarLike_eq_ok success
    rw [scalarMeaning_eq_openOnNull rfl]
    exact realizes_like tables row true true literal
  | startsWith =>
    obtain ⟨needle, literal, rfl⟩ := compileScalarLike_eq_ok success
    rw [scalarMeaning_eq_openOnNull rfl]
    exact realizes_like tables row false true literal
  | endsWith =>
    obtain ⟨needle, literal, rfl⟩ := compileScalarLike_eq_ok success
    rw [scalarMeaning_eq_openOnNull rfl]
    exact realizes_like tables row true false literal
  | notContains =>
    obtain ⟨needle, literal, rfl⟩ := compileScalarLike_eq_ok success
    rw [scalarMeaning_negative (.inr ⟨rfl, rfl⟩)]
    refine ⟨.paren (.disj [.isNull (.column column),
      .like true (.column column) true (.placeholder _) true]), fun _ => rfl, ?_⟩
    simp only [Clause.eval, Clause.evalList, Operand.eval, if_true,
      likeValues_eq_openOnNull true true literal]
    exact any_isNull_not _ _
  | ne =>
    obtain ⟨param, bound, success⟩ := Fallible.of_bind_ok success
    cases success
    rw [scalarMeaning_negative (.inl ⟨rfl, rfl⟩)]
    refine ⟨.paren (.disj [.isNull (.column column),
      .compare (.column column) .ne (.placeholder param)]), fun _ => rfl, ?_⟩
    have negated : compareValues .ne (row.scope column) param
        = Kleene.not (openOnNull (row.scope column)
            (cellTest sys.propertyType false .eq value today (row.scope column))) := by
      rw [compareValues_eq_openOnNull _ _ (bindValue_ne_null bound)]
      unfold openOnNull
      split_ifs <;>
        simp [cellTest, equalsLiteral, literalOf_of_bindValue bound, CompareOp.accepts, bne]
    simp only [Clause.eval, Clause.evalList, Operand.eval, negated]
    exact any_isNull_not _ _
  | linksTo => cases success
  | eq | lt | lte | gt | gte =>
    obtain ⟨param, bound, success⟩ := Fallible.of_bind_ok success
    cases success
    rw [scalarMeaning_eq_openOnNull rfl]
    simp only [cellTest, equalsLiteral, sqlOp, literalOf_of_bindValue bound]
    exact realizes_compare tables row _ (bindValue_ne_null bound)
  | isToday | isThisWeek | isPastWeek | isNextWeek | isThisMonth =>
    exact compileScalar_window_realizes tables row rfl success

end Scalar

/-! ### Membership -/

def Membership.Lists (source : Membership) (tables : Tables) (row : PageRow)
    (current : List String) : Prop :=
  ∀ (negated : Bool) (test : QueryTemplate) (values : List Value) (bound : QueryClause)
    (holds : Value → Option Bool), test.Takes values bound →
    (∀ scope, bound.eval tables.database scope = holds (scope source.subject)) →
    SqlFilter.Realizes ⟨source.existsWhere negated test, values⟩ tables row
      (some (negated ^^ current.any fun value => holds (.text value) == some true))

theorem tagMembership_lists (tables : Tables) (row : PageRow) :
    tagMembership.Lists tables row (tables.tagsOf row.id) := by
  intro negated test values bound holds takes evaluates
  refine ⟨.existsIn negated .tags
    (.conj [.compare (.column .tagPageId) .eq (.column .pageId), bound]), fun rest => ?_, ?_⟩
  · simp only [Membership.existsWhere, tagMembership, cons_append, nil_append, Clause.bind,
      Clause.bindList, Operand.bind, takes rest, bind_eq_bind, bind_some]
  · simp only [Clause.eval, Clause.evalList, Kleene.all, evaluates, tagMembership, Operand.eval,
      Tables.database, Tables.tagsOf, List.any_map, List.any_filter, comp_def, Scope.extend,
      TagRow.cells, PageRow.scope, getD_some, getD_none, compareValues_text_eq]
    have agree : ∀ tag : TagRow, (Kleene.and (some (tag.pageId == row.id))
            (Kleene.and (holds (.text tag.tag)) (some true)) == some true)
          = (tag.pageId == row.id && (holds (.text tag.tag) == some true)) := by
      intro tag
      cases tag.pageId == row.id <;> rcases holds (.text tag.tag) with _ | _ | _ <;> rfl
    simp only [agree]
    cases negated <;> simp

theorem aliasMembership_lists (tables : Tables) (row : PageRow) :
    aliasMembership.Lists tables row (tables.aliasesOf row.id) := by
  intro negated test values bound holds takes evaluates
  refine ⟨.existsIn negated .canonicalNames
    (.conj [.compare (.column .namePageId) .eq (.column .pageId),
      .compare (.column .nameSource) .eq (.literal "alias"), bound]), fun rest => ?_, ?_⟩
  · simp only [Membership.existsWhere, aliasMembership, cons_append, nil_append, Clause.bind,
      Clause.bindList, Operand.bind, takes rest, bind_eq_bind, bind_some]
  · simp only [Clause.eval, Clause.evalList, Kleene.all, evaluates, aliasMembership, Operand.eval,
      Tables.database, Tables.aliasesOf, List.any_map, List.any_filter, comp_def, Scope.extend,
      NameRow.cells, PageRow.scope, getD_some, getD_none, compareValues_text_eq]
    have agree : ∀ name : NameRow,
        (Kleene.and (some (name.pageId == row.id)) (Kleene.and (some (name.source == "alias"))
            (Kleene.and (holds (.text name.canonicalName)) (some true))) == some true)
          = ((name.pageId == row.id && name.source == "alias")
              && (holds (.text name.canonicalName) == some true)) := by
      intro name
      cases name.pageId == row.id <;> cases name.source == "alias" <;>
        rcases holds (.text name.canonicalName) with _ | _ | _ <;> rfl
    simp only [agree]
    cases negated <;> simp

section Membership

variable {field : String} {op : Op} {value : Json} {source : Membership}
  {toParam : String → String} {compiled : SqlFilter} {tables : Tables} {row : PageRow}
  {current : List String}

private theorem membershipText_eq_ok {param : Value}
    (success : membershipText field toParam value = .ok param) :
    ∃ text, value = .string text ∧ param = .text (toParam text) := by
  cases value <;> simp_all [membershipText, Json.asString]

private theorem listsLiteral_iff (current : List String) (item : Json) :
    listsLiteral toParam current item = true
      ↔ ∃ cell ∈ current, listsLiteral toParam [cell] item = true := by
  unfold listsLiteral
  cases item.asString <;> simp

private theorem any_compareValues_membership {items : List Json} {params : List Value}
    (bound : List.Forall₂ (fun item param => membershipText field toParam item = .ok param) items
      params) (cell : String) :
    (Kleene.any (params.map fun param => compareValues .eq (.text cell) param) == some true)
      = items.any fun item => listsLiteral toParam [cell] item := by
  have decided : Kleene.any (params.map fun param => compareValues .eq (.text cell) param)
      = some (items.any fun item => listsLiteral toParam [cell] item) := by
    induction bound with
    | nil => rfl
    | cons boundHead _ ih =>
      obtain ⟨text, rfl, rfl⟩ := membershipText_eq_ok boundHead
      rw [map_cons, Kleene.any, ih, compareValues_text_eq, Kleene.or_some]
      simp [listsLiteral, Json.asString]
  rw [decided]
  cases items.any _ <;> rfl

theorem compileMembership_realizes (lists : source.Lists tables row current)
    (success : compileMembership field op value source toParam = .ok compiled) :
    compiled.Realizes tables row (some (membershipHolds toParam op value current)) := by
  have equalsText : ∀ (negated : Bool) (text : String),
      SqlFilter.Realizes ⟨source.existsWhere negated (.compare (.column source.subject) .eq hole),
        [.text text]⟩ tables row (some (negated ^^ current.any (· == text))) := by
    intro negated text
    have := lists negated (.compare (.column source.subject) .eq hole) [.text text]
      (.compare (.column source.subject) .eq (.placeholder (.text text)))
      (fun cell => compareValues .eq cell (.text text)) (fun _ => rfl) (fun _ => rfl)
    simpa [compareValues_text_eq] using this
  have present : ∀ negated : Bool,
      SqlFilter.Realizes ⟨source.existsWhere negated (.isNotNull (.column source.subject)), []⟩
        tables row (some (negated ^^ !current.isEmpty)) := by
    intro negated
    have := lists negated (.isNotNull (.column source.subject)) []
      (.isNotNull (.column source.subject)) (fun cell => some (cell != .null)) (fun _ => rfl)
      (fun _ => rfl)
    have stored : ∀ value : String, (Value.text value != .null) = true := fun _ => rfl
    cases current <;> simpa [stored] using this
  cases op with
  | eq | contains =>
    obtain ⟨param, bound, success⟩ := Fallible.of_bind_ok success
    obtain ⟨text, rfl, rfl⟩ := membershipText_eq_ok bound
    cases success
    simpa [membershipHolds, listsLiteral, Json.asString] using equalsText false (toParam text)
  | ne | notContains =>
    obtain ⟨param, bound, success⟩ := Fallible.of_bind_ok success
    obtain ⟨text, rfl, rfl⟩ := membershipText_eq_ok bound
    cases success
    simpa [membershipHolds, listsLiteral, Json.asString] using equalsText true (toParam text)
  | isIn =>
    obtain ⟨items, candidates, success⟩ := Fallible.of_bind_ok success
    obtain ⟨params, bound, success⟩ := Fallible.of_bind_ok success
    cases success
    obtain rfl := inCandidates_eq_ok candidates
    have := lists false (.inList (.column source.subject) (holes params)) params
      (.inList (.column source.subject) (params.map .placeholder))
      (fun cell => Kleene.any (params.map fun param => compareValues .eq cell param))
      (fun rest => by
        simp only [Clause.bind, Operand.bind, holes, hole, Operand.bindList_placeholders,
          bind_eq_bind, bind_some])
      (fun scope => by
        simp only [Clause.eval, Operand.eval, List.map_map, comp_def])
    simp only [any_compareValues_membership (bindItems_eq_ok bound), Bool.false_xor] at this
    have exchange : membershipHolds toParam .isIn (.array items) current
        = current.any fun cell => items.any fun item => listsLiteral toParam [cell] item := by
      simp only [membershipHolds, Json.asArray]
      rw [Bool.eq_iff_iff]
      simp only [List.any_eq_true]
      constructor
      · rintro ⟨item, member, listed⟩
        obtain ⟨cell, inCurrent, listed⟩ := (listsLiteral_iff current item).1 listed
        exact ⟨cell, inCurrent, item, member, listed⟩
      · rintro ⟨cell, inCurrent, item, member, listed⟩
        exact ⟨item, member, (listsLiteral_iff current item).2 ⟨cell, inCurrent, listed⟩⟩
    rw [exchange]
    exact this
  | isEmpty =>
    cases success
    simpa [membershipHolds] using present true
  | notEmpty =>
    cases success
    simpa [membershipHolds] using present false
  | lt | lte | gt | gte | startsWith | endsWith | linksTo | isToday | isThisWeek | isPastWeek
  | isNextWeek | isThisMonth => cases success

end Membership

/-! ### Properties -/

theorem propertyExists_realizes (tables : Tables) (row : PageRow) (negated : Bool) (key : String)
    {tests : List QueryTemplate} {values : List Value} {bounds : List QueryClause}
    {holds : PropertyRow → Bool} (takes : Clause.TakesAll tests values bounds)
    (evaluates : ∀ property : PropertyRow,
      (Clause.evalList tables.database bounds (row.scope.extend property.cells)).all
        (· == some true) = holds property) :
    SqlFilter.Realizes ⟨propertyExists negated tests, .text key :: values⟩ tables row
      (some (negated ^^ (tables.propertyRows row.id key).any holds)) := by
  refine ⟨.existsIn negated .pageProperties
    (.conj (.compare (.column .propertyPageId) .eq (.column .pageId)
      :: .compare (.column .propertyKey) .eq (.placeholder (.text key)) :: bounds)),
    fun rest => ?_, ?_⟩
  · simp only [propertyExists, hole, Clause.bind, Clause.bindList, Operand.bind, cons_append,
      takes rest, bind_eq_bind, bind_some]
  · simp only [Clause.eval, Clause.evalList, Kleene.all_beq_true, all_cons, evaluates, Operand.eval,
      Tables.database, Tables.propertyRows, List.any_map, List.any_filter, comp_def]
    simp only [Scope.extend, PropertyRow.cells, PageRow.scope, getD_some, getD_none,
      compareValues_text_eq, some_beq_some, beq_true, Bool.and_assoc]
    cases negated <;> simp

theorem openOnNull_beq_true (cell : Value) (test : Bool) :
    (openOnNull cell test == some true) = (cell != .null && test) := by
  unfold openOnNull
  by_cases null : cell = .null
  · simp [null]
  · simp [null]

theorem extend_cells_typedColumn (scope : Scope Column) (property : PropertyRow)
    (type : PropertyType) :
    scope.extend property.cells (typedColumn type) = property.cell type := by
  cases type <;> rfl

section Property

variable {unicode : Unicode} {field key : String} {type : PropertyType} {op : Op} {value : Json}
  {today : NaiveDate} {compiled : SqlFilter} (tables : Tables) (row : PageRow)

private theorem realizes_propertyTest (negated : Bool) (key : String) {test : QueryTemplate}
    {values : List Value} (bound : QueryClause) (holds : Value → Bool)
    (takes : test.Takes values bound)
    (evaluates : ∀ scope, bound.eval tables.database scope
      = openOnNull (scope (typedColumn type)) (holds (scope (typedColumn type)))) :
    SqlFilter.Realizes ⟨propertyExists negated [test], .text key :: values⟩ tables row
      (some (negated ^^ (tables.propertyRows row.id key).any fun property =>
        property.cell type != .null && holds (property.cell type))) := by
  have takesOne := Clause.TakesAll.cons takes Clause.takesAll_nil
  rw [append_nil] at takesOne
  refine propertyExists_realizes tables row negated key takesOne fun property => ?_
  simp only [Clause.evalList, all_cons, all_nil, Bool.and_true, evaluates,
    extend_cells_typedColumn, openOnNull_beq_true]

private theorem compileContains_realizes (negated : Bool) (key : String)
    {test : QueryTemplate} {param : Value}
    (success : compileContains field type op value = .ok (test, param)) :
    SqlFilter.Realizes ⟨propertyExists negated [test], [.text key, param]⟩ tables row
      (some (negated ^^ (tables.propertyRows row.id key).any fun property =>
        storedTest type type.isCategorical .contains value today (property.cell type))) := by
  unfold compileContains at success
  split_ifs at success with supported categorical
  · obtain ⟨param, bound, success⟩ := Fallible.of_bind_ok success
    cases success
    refine realizes_propertyTest tables row negated key
      (.compare (.column (typedColumn type)) .eq (.placeholder param)) _ (fun _ => rfl)
      fun scope => ?_
    rw [Clause.eval, Operand.eval, Operand.eval,
      compareValues_eq_openOnNull _ _ (bindValue_ne_null bound)]
    simp only [cellTest, categorical, if_true, equalsLiteral, literalOf_of_bindValue bound,
      CompareOp.accepts]
  · obtain ⟨param, bound, success⟩ := Fallible.of_bind_ok success
    obtain ⟨needle, literal, rfl⟩ := bindLiteralContainsValue_text supported bound
    cases success
    refine realizes_propertyTest tables row negated key
      (.like false (.column (typedColumn type)) true (.placeholder _) true) _
      (fun _ => rfl) fun scope => ?_
    simp only [Clause.eval, Operand.eval, Bool.false_eq_true, if_false,
      likeValues_eq_openOnNull true true literal, cellTest, categorical, likeShape]

private theorem compileAffix_realizes (leading trailing : Bool) {holdsOp : Op}
    (shape : ∀ cell, cellTest type type.isCategorical holdsOp value today cell
      = textTest (likeShape leading trailing) value cell)
    {param : Value} (supported : type.supportsContains = true)
    (bound : bindLiteralContainsValue field type op value = .ok param) :
    SqlFilter.Realizes
      ⟨propertyExists false [.like false (.column (typedColumn type)) leading hole trailing],
        [.text key, param]⟩ tables row
      (some ((tables.propertyRows row.id key).any fun property =>
        storedTest type type.isCategorical holdsOp value today (property.cell type))) := by
  obtain ⟨needle, literal, rfl⟩ := bindLiteralContainsValue_text supported bound
  simp only [storedTest, shape]
  rw [← Bool.false_xor (List.any _ _)]
  refine realizes_propertyTest tables row false key
    (.like false (.column (typedColumn type)) leading (.placeholder _) trailing) _
    (fun _ => rfl) fun scope => ?_
  simp only [Clause.eval, Operand.eval, Bool.false_eq_true, if_false,
    likeValues_eq_openOnNull leading trailing literal]

private theorem compileProp_window_realizes (relative : op.isRelativeDate = true)
    (success : compileProp unicode field key type op value today = .ok compiled) :
    compiled.Realizes tables row (some ((tables.propertyRows row.id key).any fun property =>
        storedTest type type.isCategorical op value today (property.cell type))) := by
  obtain ⟨window, supported, found, rfl⟩ : ∃ window, type.supportsRelativeDate = true
      ∧ relativeDateWindow op today = some window
      ∧ compiled = ⟨propertyExists false [.compare (.column .propertyDate) .ge hole,
          .compare (.column .propertyDate) .lt hole], .text key :: bindRelativeWindow window⟩ := by
    cases op <;> first | contradiction | skip
    all_goals
      simp only [compileProp] at success
      split at success
      · rename_i window supported found
        cases success
        exact ⟨window, supported, found, rfl⟩
      · cases success
  have takes : Clause.TakesAll
      ([.compare (.column .propertyDate) .ge hole, .compare (.column .propertyDate) .lt hole] :
        List QueryTemplate)
      (bindRelativeWindow window)
      [.compare (.column .propertyDate) .ge (.placeholder (.text window.1.format)),
        .compare (.column .propertyDate) .lt (.placeholder (.text window.2.format))] :=
    fun _ => rfl
  rw [← Bool.false_xor (List.any _ _)]
  refine propertyExists_realizes tables row false key takes fun property => ?_
  have column : typedColumn type = .propertyDate := by cases type <;> first | contradiction | rfl
  have test : ∀ cell, cellTest type type.isCategorical op value today cell
      = (compareStored cell (.text window.1.format) != .lt
          && compareStored cell (.text window.2.format) == .lt) := by
    intro cell
    cases op <;> first | contradiction | simp only [cellTest, found]
  simp only [Clause.evalList, Clause.eval, Operand.eval, ← column, extend_cells_typedColumn,
    compareValues_eq_openOnNull _ _ (show Value.text _ ≠ .null by simp), all_cons,
    all_nil, openOnNull_beq_true, storedTest, test, CompareOp.accepts]
  cases property.cell type != .null <;> simp

private theorem compileProp_linksTo_realizes
    (success : compileProp unicode field key type .linksTo value today = .ok compiled) :
    compiled.Realizes tables row
      (some (propHolds unicode type .linksTo value today (tables.propertyRows row.id key)
        (tables.linkRows row.id key))) := by
  simp only [compileProp] at success
  split_ifs at success
  split at success
  case h_2 => cases success
  rename_i target text
  cases success
  generalize normalized : normalizeLinksToTarget unicode target = expected
  refine ⟨.existsIn false .links (.conj [.compare (.column .linkSourceId) .eq (.column .pageId),
        .compare (.column .linkSourceField) .eq (.placeholder (.text key)),
        .paren (.disj
          [.compare (.column .linkTargetId) .eq (.placeholder (.text expected.targetId)),
            .compare (.column .linkTargetCanonical) .eq
              (.placeholder (.text expected.targetCanonical))])]), fun _ => rfl, ?_⟩
  have optional : ∀ (cell : Option String) (text : String),
      (compareValues .eq (Value.ofText cell) (.text text) == some true) = (cell == some text) := by
    intro cell text
    cases cell with
    | none => rfl
    | some cell => simp [Value.ofText, compareValues_text_eq]
  have either : ∀ left right : Option Bool,
      (Kleene.or left (Kleene.or right (some false)) == some true)
        = (left == some true || right == some true) := by
    intro left right
    rcases left with _ | _ | _ <;> rcases right with _ | _ | _ <;> rfl
  simp only [propHolds, text, normalized, Clause.eval, Clause.evalList, Kleene.all_beq_true,
    all_cons, all_nil, Kleene.any, either, Operand.eval, Tables.database, Tables.linkRows,
    List.any_map, List.any_filter, comp_def, Scope.extend, LinkRow.cells, PageRow.scope, getD_some,
    getD_none, optional, compareValues_text_eq, some_beq_some, beq_true, Bool.and_true,
    Bool.and_assoc, Bool.false_eq_true, if_false]

theorem compileProp_realizes
    (success : compileProp unicode field key type op value today = .ok compiled) :
    compiled.Realizes tables row
      (some (propHolds unicode type op value today (tables.propertyRows row.id key)
        (tables.linkRows row.id key))) := by
  have present : ∀ negated : Bool,
      SqlFilter.Realizes ⟨propertyExists negated [], [.text key]⟩ tables row
        (some (negated ^^ !(tables.propertyRows row.id key).isEmpty)) := by
    intro negated
    have realized := propertyExists_realizes tables row negated key
      (Clause.takesAll_nil) (fun _ => rfl)
    simp only [Clause.evalList, all_nil] at realized
    cases rows : tables.propertyRows row.id key <;> simpa [rows] using realized
  cases op with
  | isEmpty =>
    cases success
    simpa [propHolds] using present true
  | notEmpty =>
    cases success
    simpa [propHolds] using present false
  | linksTo => exact compileProp_linksTo_realizes tables row success
  | isIn =>
    obtain ⟨items, candidates, success⟩ := Fallible.of_bind_ok success
    obtain ⟨params, bound, success⟩ := Fallible.of_bind_ok success
    cases success
    obtain rfl := inCandidates_eq_ok candidates
    have takes : Clause.TakesAll
        ([.inList (.column (typedColumn type)) (holes params)] : List QueryTemplate) params
        [.inList (.column (typedColumn type)) (params.map .placeholder)] := by
      intro rest
      simp only [Clause.bindList, Clause.bind, Operand.bind, holes, hole,
        Operand.bindList_placeholders, bind_eq_bind, bind_some]
    simp only [propHolds]
    rw [← Bool.false_xor (List.any _ _)]
    refine propertyExists_realizes tables row false key takes fun property => ?_
    simp only [Clause.evalList, Clause.eval, Operand.eval, List.map_map, comp_def,
      extend_cells_typedColumn, all_cons, all_nil, Bool.and_true, storedTest, cellTest,
      Json.asArray]
    by_cases null : property.cell type = .null
    · rw [null, any_compareValues_null]
      cases params <;> rfl
    · rw [any_compareValues_of_ne_null (bindItems_eq_ok bound) null]
      simp [null]
  | contains =>
    obtain ⟨⟨test, param⟩, compiledTest, success⟩ := Fallible.of_bind_ok success
    cases success
    simpa [propHolds] using compileContains_realizes tables row false key compiledTest
  | notContains =>
    obtain ⟨⟨test, param⟩, compiledTest, success⟩ := Fallible.of_bind_ok success
    cases success
    simpa [propHolds] using compileContains_realizes tables row true key compiledTest
  | startsWith =>
    simp only [compileProp] at success
    split_ifs at success with supported
    obtain ⟨param, bound, success⟩ := Fallible.of_bind_ok success
    cases success
    exact compileAffix_realizes tables row false true (fun _ => rfl)
      (by cases type <;> first | contradiction | rfl) bound
  | endsWith =>
    simp only [compileProp] at success
    split_ifs at success with supported
    obtain ⟨param, bound, success⟩ := Fallible.of_bind_ok success
    cases success
    exact compileAffix_realizes tables row true false (fun _ => rfl)
      (by cases type <;> first | contradiction | rfl) bound
  | ne | eq | lt | lte | gt | gte =>
    obtain ⟨param, bound, success⟩ := Fallible.of_bind_ok success
    cases success
    simp only [propHolds, storedTest]
    first
      | rw [← Bool.true_xor (List.any _ _)]
      | rw [← Bool.false_xor (List.any _ _)]
    refine realizes_propertyTest tables row _ key
      (.compare (.column (typedColumn type)) _ (.placeholder param)) _ (fun _ => rfl)
      fun scope => ?_
    rw [Clause.eval, Operand.eval, Operand.eval,
      compareValues_eq_openOnNull _ _ (bindValue_ne_null bound)]
    simp only [cellTest, equalsLiteral, sqlOp, literalOf_of_bindValue bound, CompareOp.accepts]
  | isToday | isThisWeek | isPastWeek | isNextWeek | isThisMonth =>
    exact compileProp_window_realizes tables row rfl success

end Property

/-! ### Filters -/

section Filters

variable {unicode : Unicode} {ctx : QueryContext} (tables : Tables) (row : PageRow)

theorem compileCmp_realizes {field : String} {op : Op} {value : Json} {compiled : SqlFilter}
    (success : compileCmp unicode field op value ctx = .ok compiled) :
    compiled.Realizes tables row (filterMeaning unicode ctx tables row (.cmp field op value)) := by
  have ⟨resolved, resolves, success⟩ := Fallible.of_bind_ok success
  simp only [filterMeaning, filterDecided, filterHolds, cmpDecided, cmpHolds, resolves]
  cases resolved with
  | prop key type => exact compileProp_realizes tables row success
  | sys sys =>
    cases sys with
    | tags => exact compileMembership_realizes (tagMembership_lists tables row) success
    | aliases => exact compileMembership_realizes (aliasMembership_lists tables row) success
    | id | path | title | kind | project | createdAt | updatedAt | encryption | journalDate
    | wordCount => exact compileScalar_realizes tables row success

mutual

/-- **Adequacy of compilation**: the clause evaluates to the three-valued reading. -/
theorem compileFilter_realizes : ∀ {filter : Filter} {compiled : SqlFilter},
      compileFilter unicode ctx filter = .ok compiled →
      compiled.Realizes tables row (filterMeaning unicode ctx tables row filter)
  | .all [], compiled, success => by
    cases success
    exact ⟨.constant true, fun _ => rfl, rfl⟩
  | .all (child :: children), compiled, success => by
    have ⟨parts, compiledParts, success⟩ := Fallible.of_bind_ok success
    cases success
    have ⟨bounds, takes, evaluates⟩ := compileChildren_realizes compiledParts
    refine ⟨.paren (.conj bounds), takes.conj.paren, ?_⟩
    rw [filterMeaning_all, ← evaluates]
    rfl
  | .any [], compiled, success => by
    cases success
    exact ⟨.constant false, fun _ => rfl, rfl⟩
  | .any (child :: children), compiled, success => by
    have ⟨parts, compiledParts, success⟩ := Fallible.of_bind_ok success
    cases success
    have ⟨bounds, takes, evaluates⟩ := compileChildren_realizes compiledParts
    refine ⟨.paren (.disj bounds), takes.disj.paren, ?_⟩
    rw [filterMeaning_any, ← evaluates]
    rfl
  | .not child, compiled, success => by
    have ⟨compiledChild, compiles, success⟩ := Fallible.of_bind_ok success
    cases success
    have ⟨bound, takes, evaluates⟩ := compileFilter_realizes compiles
    refine ⟨.neg bound, takes.neg, ?_⟩
    rw [filterMeaning_not, ← evaluates]
    rfl
  | .cmp field op value, compiled, success => compileCmp_realizes tables row success

theorem compileChildren_realizes :
    ∀ {children : List Filter} {parts : List QueryTemplate × List Value},
      compileChildren unicode ctx children = .ok parts →
      ∃ bounds, Clause.TakesAll parts.1 parts.2 bounds
        ∧ Clause.evalList tables.database bounds row.scope
          = children.map (filterMeaning unicode ctx tables row)
  | [], parts, success => by
    cases success
    exact ⟨[], Clause.takesAll_nil, rfl⟩
  | child :: children, parts, success => by
    have ⟨head, compiledHead, success⟩ := Fallible.of_bind_ok success
    have ⟨tail, compiledTail, success⟩ := Fallible.of_bind_ok success
    cases success
    have ⟨bound, takes, evaluates⟩ := compileFilter_realizes compiledHead
    have ⟨bounds, takesAll, evaluatesAll⟩ := compileChildren_realizes compiledTail
    refine ⟨bound :: bounds, Clause.TakesAll.cons takes takesAll, ?_⟩
    rw [Clause.evalList, evaluates, evaluatesAll, map_cons]

end

end Filters

end Clepsydra.Bases
