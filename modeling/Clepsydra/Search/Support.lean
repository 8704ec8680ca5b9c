import Clepsydra.Library.Fallible
import Clepsydra.Search.Compile

/-!
Owns: what a search expression means on an index, and what is left for each text in it.

Proves: the compiled condition selects the pages on which the expression holds, and a positive text
with its support holds where what is left does.
-/

namespace Clepsydra.Search

open Library Library.Fallible Library.Sqlite List Option

/-! ### Meaning -/

structure IndexContent (Page : Type) where
  kind : Page → String
  project : Page → Option String
  tags : Page → List String
  propertyKeys : Page → List String
  ftsMatches : String → Page → Bool

inductive Leaf where
  | text (value : String) (mode : TextMode)
  | field (field : SearchField) (value : String)

def CountComparison.holds : CountComparison → Nat → Nat → Bool
  | .equal, count, bound => decide (count = bound)
  | .greater, count, bound => decide (bound < count)
  | .greaterOrEqual, count, bound => decide (bound ≤ count)
  | .less, count, bound => decide (count < bound)
  | .lessOrEqual, count, bound => decide (count ≤ bound)

section Meaning

variable {Page : Type} (isAlphanumeric : Char → Bool) (content : IndexContent Page) (page : Page)

def attendeeCount : Nat := (content.propertyKeys page).count "attendees"

def Leaf.holds : Leaf → Bool
  | .text value mode => content.ftsMatches (ftsText isAlphanumeric value mode) page
  | .field .kind value => content.kind page == value
  | .field .project value => content.project page == some value
  | .field .tag value => (content.tags page).contains value
  | .field .attendees value =>
    (parseCountComparison value).any fun wanted => wanted.1.holds (attendeeCount content page) wanted.2

mutual

def SearchExpr.holds : SearchExpr → Bool
  | .text value mode _ => Leaf.holds isAlphanumeric content page (.text value mode)
  | .field field value _ => Leaf.holds isAlphanumeric content page (.field field value)
  | .all children _ => allHold children
  | .any children _ => anyHolds children
  | .not child _ => !child.holds

def allHold : List SearchExpr → Bool
  | [] => true
  | child :: rest => child.holds && allHold rest

def anyHolds : List SearchExpr → Bool
  | [] => false
  | child :: rest => child.holds || anyHolds rest

end

end Meaning

inductive Normal where
  | literal (positive : Bool) (leaf : Leaf)
  | all (children : List Normal)
  | any (children : List Normal)

mutual

def SearchExpr.normal : SearchExpr → Bool → Normal
  | .text value mode _, negated => .literal (!negated) (.text value mode)
  | .field field value _, negated => .literal (!negated) (.field field value)
  | .all children _, false => .all (normalChildren children false)
  | .all children _, true => .any (normalChildren children true)
  | .any children _, false => .any (normalChildren children false)
  | .any children _, true => .all (normalChildren children true)
  | .not child _, negated => child.normal (!negated)

def normalChildren : List SearchExpr → Bool → List Normal
  | [], _ => []
  | child :: rest, negated => child.normal negated :: normalChildren rest negated

end

mutual

def Normal.holds (test : Leaf → Bool) : Normal → Bool
  | .literal positive leaf => test leaf == positive
  | .all children => everyHolds test children
  | .any children => someHolds test children

def everyHolds (test : Leaf → Bool) : List Normal → Bool
  | [] => true
  | child :: rest => child.holds test && everyHolds test rest

def someHolds (test : Leaf → Bool) : List Normal → Bool
  | [] => false
  | child :: rest => child.holds test || someHolds test rest

end

/-- A text of an expression, and what is left when every disjunction on the way keeps only its
branch. -/
structure Justification where
  positive : Bool
  value : String
  mode : TextMode
  kept : Normal

mutual

def Normal.justifications : Normal → List Justification
  | .literal positive (.text value mode) =>
    [{ positive, value, mode, kept := .literal positive (.text value mode) }]
  | .literal _ (.field _ _) => []
  | .any children => justificationsOfAny children
  | .all children => justificationsOfAll [] children

def justificationsOfAny : List Normal → List Justification
  | [] => []
  | child :: rest => child.justifications ++ justificationsOfAny rest

def justificationsOfAll (earlier : List Normal) : List Normal → List Justification
  | [] => []
  | child :: rest =>
    child.justifications.map (fun found =>
        { found with kept := .all (earlier ++ found.kept :: rest) })
      ++ justificationsOfAll (earlier ++ [child]) rest

end

mutual

def SearchExpr.grouped : SearchExpr → Bool
  | .text _ _ _ => true
  | .field _ _ _ => true
  | .all children _ => !children.isEmpty && groupedChildren children
  | .any children _ => !children.isEmpty && groupedChildren children
  | .not child _ => child.grouped

def groupedChildren : List SearchExpr → Bool
  | [] => true
  | child :: rest => child.grouped && groupedChildren rest

end

mutual

def SearchExpr.compilable (isAlphanumeric : Char → Bool) : SearchExpr → Bool
  | .text value mode _ => !(ftsText isAlphanumeric value mode).isEmpty
  | .field .attendees value _ => (parseCountComparison value).isSome
  | .field _ _ _ => true
  | .all children _ => compilableChildren isAlphanumeric children
  | .any children _ => compilableChildren isAlphanumeric children
  | .not child _ => child.compilable isAlphanumeric

def compilableChildren (isAlphanumeric : Char → Bool) : List SearchExpr → Bool
  | [] => true
  | child :: rest => child.compilable isAlphanumeric && compilableChildren isAlphanumeric rest

end

/-! ### Evaluation of a statement -/

section Statement

variable {Page : Type} (content : IndexContent Page) (page : Page)

def sqlOperator : CountComparison → CompareOp
  | .equal => .eq
  | .greater => .gt
  | .greaterOrEqual => .ge
  | .less => .lt
  | .lessOrEqual => .le

/-- `?n`; a parameter that is not bound is NULL. -/
def boundParameter (parameters : List Value) (parameter : Nat) : Value :=
  (parameters[parameter - 1]?).getD .null

/-- The rows of `text_n` for a page; a table that is not defined has no value. -/
def textMatches (parameters : List Value) (textLeaves : List TextLeaf) (ordinal : Nat) :
    Option Bool :=
  (textLeaves[ordinal]?).map fun leaf =>
    match boundParameter parameters leaf.parameter with
    | .text fts => content.ftsMatches fts page
    | _ => false

def testValue (parameters : List Value) (textLeaves : List TextLeaf) : Test → Option Bool
  | .existsText ordinal => textMatches content page parameters textLeaves ordinal
  | .kindIs parameter =>
    compareValues .eq (.text (content.kind page)) (boundParameter parameters parameter)
  | .projectIs parameter =>
    -- `COALESCE(p.project = ?n, 0)`
    some ((compareValues .eq (Value.ofText (content.project page))
      (boundParameter parameters parameter)).getD false)
  | .tagged parameter =>
    some ((content.tags page).any fun tag =>
      compareValues .eq (.text tag) (boundParameter parameters parameter) == some true)
  | .attendees comparison parameter =>
    compareValues (sqlOperator comparison) (.integer (attendeeCount content page))
      (boundParameter parameters parameter)

def CompiledQuery.eval (query : CompiledQuery) (condition : Condition) : Option Bool :=
  condition.eval (testValue content page query.parameters query.textLeaves)

def CompiledQuery.selects (query : CompiledQuery) : Bool :=
  query.eval content page query.condition == some true

/-- A row of `positive_matches`: the text matches and its support holds. -/
def CompiledQuery.justifies (query : CompiledQuery) (leaf : TextLeaf) : Bool :=
  textMatches content page query.parameters query.textLeaves leaf.ordinal == some true &&
    leaf.support.any fun support => query.eval content page support == some true

end Statement

/-! ### Groups as lists -/

theorem everyHolds_eq_all (test : Leaf → Bool) (children : List Normal) :
    everyHolds test children = children.all (Normal.holds test) := by
  induction children with
  | nil => rfl
  | cons child rest ih =>
    rw [everyHolds, all_cons, ih]

theorem someHolds_eq_any (test : Leaf → Bool) (children : List Normal) :
    someHolds test children = children.any (Normal.holds test) := by
  induction children with
  | nil => rfl
  | cons child rest ih =>
    rw [someHolds, any_cons, ih]

theorem everyHolds_normalChildren {test : Leaf → Bool} {children : List SearchExpr}
    {negated : Bool} {meaning : SearchExpr → Bool}
    (each : ∀ child ∈ children, (child.normal negated).holds test = meaning child) :
    everyHolds test (normalChildren children negated) = children.all meaning := by
  induction children with
  | nil => rfl
  | cons child rest ih =>
    rw [forall_mem_cons] at each
    rw [normalChildren, everyHolds, all_cons, each.1, ih each.2]

theorem someHolds_normalChildren {test : Leaf → Bool} {children : List SearchExpr}
    {negated : Bool} {meaning : SearchExpr → Bool}
    (each : ∀ child ∈ children, (child.normal negated).holds test = meaning child) :
    someHolds test (normalChildren children negated) = children.any meaning := by
  induction children with
  | nil => rfl
  | cons child rest ih =>
    rw [forall_mem_cons] at each
    rw [normalChildren, someHolds, any_cons, each.1, ih each.2]

section Groups

variable {Page : Type} {isAlphanumeric : Char → Bool} {content : IndexContent Page} {page : Page}

theorem allHold_eq_all (children : List SearchExpr) : allHold isAlphanumeric content page children =
      children.all (SearchExpr.holds isAlphanumeric content page) := by
  induction children with
  | nil => rfl
  | cons child rest ih => rw [allHold, all_cons, ih]

theorem anyHolds_eq_any (children : List SearchExpr) :
    anyHolds isAlphanumeric content page children =
      children.any (SearchExpr.holds isAlphanumeric content page) := by
  induction children with
  | nil => rfl
  | cons child rest ih => rw [anyHolds, any_cons, ih]

theorem holds_normal (expression : SearchExpr) (negated : Bool) :
    (expression.normal negated).holds (Leaf.holds isAlphanumeric content page) =
      (expression.holds isAlphanumeric content page != negated) := by
  induction expression using SearchExpr.inductionOn generalizing negated with
  | text value mode span => cases negated <;> simp [SearchExpr.normal, Normal.holds, SearchExpr.holds]
  | field field value span =>
    cases negated <;> simp [SearchExpr.normal, Normal.holds, SearchExpr.holds]
  | all children span ih =>
    have each := fun child member => ih child member negated
    cases negated with
    | false =>
      rw [SearchExpr.normal, Normal.holds, everyHolds_normalChildren each, SearchExpr.holds,
        allHold_eq_all]
      simp only [Bool.bne_false]
    | true =>
      rw [SearchExpr.normal, Normal.holds, someHolds_normalChildren each, SearchExpr.holds,
        allHold_eq_all]
      simp only [Bool.bne_true, not_all_eq_any_not]
  | any children span ih =>
    have each := fun child member => ih child member negated
    cases negated with
    | false =>
      rw [SearchExpr.normal, Normal.holds, someHolds_normalChildren each, SearchExpr.holds,
        anyHolds_eq_any]
      simp only [Bool.bne_false]
    | true =>
      rw [SearchExpr.normal, Normal.holds, everyHolds_normalChildren each, SearchExpr.holds,
        anyHolds_eq_any]
      simp only [Bool.bne_true, not_any_eq_all_not]
  | not child span ih =>
    rw [SearchExpr.normal, ih, SearchExpr.holds]
    cases negated <;> cases SearchExpr.holds isAlphanumeric content page child <;> rfl

end Groups

/-! ### Compiled expressions that realize an expression -/

mutual

/-- The shape of the expression, the truth of the leaves, and texts numbered from left to right. -/
inductive Realizes (truth : Test → Option Bool) (test : Leaf → Bool) :
    Nat → Normal → CompiledExpression → Nat → Prop
  | field {base : Nat} {positive : Bool} {name : SearchField} {value : String}
      {condition : Condition} :
      condition.eval truth = some (test (.field name value) == positive) →
      Realizes truth test base (.literal positive (.field name value)) (.predicate condition) base
  | negatedText {base : Nat} {value : String} {mode : TextMode} :
      truth (.existsText base) = some (test (.text value mode)) →
      Realizes truth test base (.literal false (.text value mode))
        (.predicate (.not (.test (.existsText base)))) (base + 1)
  | positiveText {base : Nat} {value : String} {mode : TextMode} :
      truth (.existsText base) = some (test (.text value mode)) →
      Realizes truth test base (.literal true (.text value mode))
        (.positiveText base (.test (.existsText base))) (base + 1)
  | all {base top : Nat} {normals : List Normal} {children : List CompiledExpression} :
      normals ≠ [] → RealizesEach truth test base normals children top →
      Realizes truth test base (.all normals) (.all children) top
  | any {base top : Nat} {normals : List Normal} {children : List CompiledExpression} :
      normals ≠ [] → RealizesEach truth test base normals children top →
      Realizes truth test base (.any normals) (.any children) top

inductive RealizesEach (truth : Test → Option Bool) (test : Leaf → Bool) :
    Nat → List Normal → List CompiledExpression → Nat → Prop
  | nil {base : Nat} : RealizesEach truth test base [] [] base
  | cons {base middle top : Nat} {normal : Normal} {child : CompiledExpression}
      {normals : List Normal} {children : List CompiledExpression} :
      Realizes truth test base normal child middle →
      RealizesEach truth test middle normals children top →
      RealizesEach truth test base (normal :: normals) (child :: children) top

end

section Realized

variable {truth : Test → Option Bool} {test : Leaf → Bool}

theorem RealizesEach.nonempty {base top : Nat} {normals : List Normal}
    {children : List CompiledExpression} (each : RealizesEach truth test base normals children top)
    (nonempty : normals ≠ []) : ¬(renderChildren children).isEmpty = true := by
  cases each with
  | nil => exact absurd rfl nonempty
  | cons first rest =>
    rw [renderChildren]
    exact Bool.false_ne_true

mutual

theorem Realizes.eval_render {base top : Nat} {normal : Normal} {compiled : CompiledExpression} :
    Realizes truth test base normal compiled top →
      compiled.render.eval truth = some (normal.holds test)
  | .field evaluates => by
    rw [CompiledExpression.render, evaluates, Normal.holds]
  | .negatedText evaluates => by
    rw [CompiledExpression.render, Condition.eval, Condition.eval, evaluates, Normal.holds,
      Kleene.not_some, beq_false]
  | .positiveText evaluates => by
    rw [CompiledExpression.render, Condition.eval, evaluates, Normal.holds, beq_true]
  | .all nonempty each => by
    have conditions := each.eval_render
    rw [CompiledExpression.render, Condition.eval, if_neg (each.nonempty nonempty),
      evalConditions_eq_map, conditions, Kleene.all_map_some, Normal.holds, everyHolds_eq_all]
  | .any nonempty each => by
    have conditions := each.eval_render
    rw [CompiledExpression.render, Condition.eval, if_neg (each.nonempty nonempty),
      evalConditions_eq_map, conditions, Kleene.any_map_some, Normal.holds, someHolds_eq_any]

theorem RealizesEach.eval_render {base top : Nat} {normals : List Normal}
    {children : List CompiledExpression} :
    RealizesEach truth test base normals children top →
      (renderChildren children).map (Condition.eval truth) =
        normals.map fun normal => some (normal.holds test)
  | .nil => rfl
  | .cons first rest => by
    rw [renderChildren, map_cons, map_cons, first.eval_render, rest.eval_render]

end

/-! ### Supports -/

/-- Only the supports of the texts found are touched. -/
structure Collected (truth : Test → Option Bool) (test : Leaf → Bool) (base : Nat)
    (found : List Justification) (context : Prop) (before after : List (Option Condition)) :
    Prop where
  length : after.length = before.length
  outside : ∀ index, index < base ∨ base + found.length ≤ index → after[index]? = before[index]?
  inside : ∀ offset justification, found[offset]? = some justification →
    justification.positive = true → ∃ support, after[base + offset]? = some (some support) ∧
      truth (.existsText (base + offset)) =
        some (test (.text justification.value justification.mode)) ∧
      ((support.eval truth = some true ∧
          test (.text justification.value justification.mode) = true) ↔
        context ∧ justification.kept.holds test = true)

theorem Collected.nothing {base : Nat} {context : Prop} {support : List (Option Condition)} :
    Collected truth test base [] context support support where
  length := rfl
  outside := fun _ _ => rfl
  inside := fun _ _ found => nomatch found

theorem Collected.append {base : Nat} {first second : List Justification} {context : Prop}
    {before middle after : List (Option Condition)}
    (left : Collected truth test base first context before middle)
    (right : Collected truth test (base + first.length) second context middle after) :
    Collected truth test base (first ++ second) context before after where
  length := right.length.trans left.length
  outside := fun index apart => by
    rw [length_append] at apart
    rw [right.outside index (by omega), left.outside index (by omega)]
  inside := fun offset justification found positive => by
    by_cases early : offset < first.length
    · rw [getElem?_append_left early] at found
      have ⟨support, stored, matched, meaning⟩ := left.inside offset justification found positive
      exact ⟨support, (right.outside _ (by omega)).trans stored, matched, meaning⟩
    · rw [getElem?_append_right (by omega)] at found
      have ⟨support, stored, matched, meaning⟩ :=
        right.inside (offset - first.length) justification found positive
      have place : base + first.length + (offset - first.length) = base + offset := by omega
      rw [place] at stored matched
      exact ⟨support, stored, matched, meaning⟩

theorem Collected.within {base : Nat} {found : List Justification} {inner outer : Prop}
    {before after : List (Option Condition)} {keep : Normal → Normal}
    (collected : Collected truth test base found inner before after)
    (siblings : ∀ kept, outer ∧ (keep kept).holds test = true ↔ inner ∧ kept.holds test = true) :
    Collected truth test base
      (found.map fun justification => { justification with kept := keep justification.kept }) outer
      before after where
  length := collected.length
  outside := fun index apart => collected.outside index (by rwa [length_map] at apart)
  inside := fun offset justification mapped positive => by
    rw [getElem?_map, map_eq_some_iff] at mapped
    obtain ⟨original, found, rfl⟩ := mapped
    have ⟨support, stored, matched, meaning⟩ := collected.inside offset original found positive
    exact ⟨support, stored, matched, meaning.trans (siblings original.kept).symm⟩

theorem eval_context {context : Condition} {earlier later : List Condition}
    {earlierNormals laterNormals : List Normal}
    (earlierTrue : earlier.map (Condition.eval truth) =
      earlierNormals.map fun normal => some (normal.holds test))
    (laterTrue : later.map (Condition.eval truth) =
      laterNormals.map fun normal => some (normal.holds test)) (kept : Normal) :
    context.eval truth = some true ∧
        (Normal.all (earlierNormals ++ kept :: laterNormals)).holds test = true ↔
      (Condition.and (context :: (earlier ++ later))).eval truth = some true ∧
        kept.holds test = true := by
  rw [Normal.holds, everyHolds_eq_all, all_append, all_cons, Condition.eval, isEmpty_cons,
    if_neg Bool.false_ne_true, evalConditions_eq_map, map_cons, map_append, earlierTrue, laterTrue,
    ← map_append, Kleene.all, Kleene.all_map_some, Kleene.and_eq_true_iff, all_append]
  simp only [some.injEq, Bool.and_eq_true]
  tauto

mutual

theorem Realizes.top_eq {base top : Nat} {normal : Normal} {compiled : CompiledExpression} :
    Realizes truth test base normal compiled top → top = base + normal.justifications.length
  | .field _ => rfl
  | .negatedText _ => rfl
  | .positiveText _ => rfl
  | .all _ each => each.top_eq_all []
  | .any _ each => each.top_eq_any

theorem RealizesEach.top_eq_any {base top : Nat} {normals : List Normal}
    {children : List CompiledExpression} :
    RealizesEach truth test base normals children top →
      top = base + (justificationsOfAny normals).length
  | .nil => rfl
  | .cons first rest => by
    rw [justificationsOfAny, length_append, ← Nat.add_assoc, ← first.top_eq]
    exact rest.top_eq_any

theorem RealizesEach.top_eq_all {base top : Nat} {normals : List Normal}
    {children : List CompiledExpression} :
    RealizesEach truth test base normals children top →
      ∀ earlier, top = base + (justificationsOfAll earlier normals).length
  | .nil => fun _ => rfl
  | .cons first rest => fun earlier => by
    rw [justificationsOfAll, length_append, length_map, ← Nat.add_assoc, ← first.top_eq]
    exact rest.top_eq_all _

end

mutual

theorem Realizes.collected {base top : Nat} {normal : Normal} {compiled : CompiledExpression} :
    Realizes truth test base normal compiled top → ∀ context support, top ≤ support.length →
      Collected truth test base normal.justifications (context.eval truth = some true) support
        (compiled.collectPositiveSupport context support)
  | .field _ => fun _ _ _ => .nothing
  | .negatedText _ => fun _ support _ =>
    -- a negated text is numbered but gets no support
    { length := rfl
      outside := fun _ _ => rfl
      inside := fun offset justification found positive => by
        cases offset with
        | zero =>
          rw [← some.inj found] at positive
          exact absurd positive Bool.false_ne_true
        | succ offset => exact nomatch found }
  | .positiveText evaluates => fun context support room =>
    { length := length_set
      outside := fun index apart => by
        apply getElem?_set_ne
        simp only [Normal.justifications, length_singleton] at apart
        omega
      inside := fun offset justification found positive => by
        cases offset with
        | zero =>
          rw [← some.inj found]
          refine ⟨context, getElem?_set_self (by omega), evaluates, ?_⟩
          simp only [Normal.holds, beq_true]
        | succ offset => exact nomatch found }
  | .any _ each => each.collectedFromAny
  | .all _ each => fun context support room =>
    each.collectedFromAll context support [] [] rfl room

theorem RealizesEach.collectedFromAny {base top : Nat} {normals : List Normal}
    {children : List CompiledExpression} :
    RealizesEach truth test base normals children top → ∀ context support, top ≤ support.length →
      Collected truth test base (justificationsOfAny normals) (context.eval truth = some true) support
        (collectFromAny children context support)
  | .nil => fun _ _ _ => .nothing
  | .cons first rest => fun context support room => by
    have middle := first.top_eq
    have top := rest.top_eq_any
    have left := first.collected context support (by omega)
    have right := rest.collectedFromAny context _ (by rw [left.length]; exact room)
    rw [middle] at right
    exact left.append right

theorem RealizesEach.collectedFromAll {base top : Nat} {normals : List Normal}
    {children : List CompiledExpression} :
    RealizesEach truth test base normals children top → ∀ context support earlier earlierNormals,
      earlier.map (Condition.eval truth) =
          earlierNormals.map (fun normal => some (normal.holds test)) →
        top ≤ support.length →
      Collected truth test base (justificationsOfAll earlierNormals normals)
        (context.eval truth = some true) support (collectFromAll earlier children context support)
  | .nil => fun _ _ _ _ _ _ => .nothing
  | @RealizesEach.cons _ _ _ _ _ normal child _ children first rest =>
    fun context support earlier earlierNormals earlierTrue room => by
      have middle := first.top_eq
      have top := rest.top_eq_all []
      have left := first.collected (.and (context :: (earlier ++ renderChildren children))) support
        (by omega)
      have childTrue : (earlier ++ [child.render]).map (Condition.eval truth) =
          (earlierNormals ++ [normal]).map fun normal => some (normal.holds test) := by
        rw [map_append, map_append, earlierTrue, map_singleton, map_singleton, first.eval_render]
      have right := rest.collectedFromAll context _ _ _ childTrue (by rw [left.length]; exact room)
      have joined := left.within (eval_context earlierTrue rest.eval_render)
      rw [middle] at right
      exact joined.append (by rwa [length_map])

end

end Realized

/-! ### The compiler realizes the expression -/

section Compiled

variable {Page : Type} {content : IndexContent Page} {page : Page} {isAlphanumeric : Char → Bool}
  {input : List Char}

def Numbered (leaves : List TextLeaf) : Prop :=
  ∀ (index : Nat) (leaf : TextLeaf), leaves[index]? = some leaf → leaf.ordinal = index

structure Reads (compiler : Compiler) (parameters : List Value) (leaves : List TextLeaf) :
    Prop where
  parameters : compiler.parameters <+: parameters
  tables : compiler.textLeaves.map TextLeaf.parameter <+: leaves.map TextLeaf.parameter

structure Compiles (isAlphanumeric : Char → Bool) (content : IndexContent Page) (page : Page)
    (before after : Compiler) (normal : Normal) (compiled : CompiledExpression) : Prop where
  parameters : before.parameters <+: after.parameters
  leaves : ∃ new, after.textLeaves = before.textLeaves ++ new ∧
    new.map TextLeaf.positive = normal.justifications.map Justification.positive
  numbered : Numbered before.textLeaves → Numbered after.textLeaves
  realizes : ∀ parameters leaves, Reads after parameters leaves →
    Realizes (testValue content page parameters leaves) (Leaf.holds isAlphanumeric content page)
      before.textLeaves.length normal compiled after.textLeaves.length

structure CompilesEach (isAlphanumeric : Char → Bool) (content : IndexContent Page) (page : Page)
    (before after : Compiler) (normals : List Normal) (children : List CompiledExpression) :
    Prop where
  parameters : before.parameters <+: after.parameters
  leaves : ∃ new, after.textLeaves = before.textLeaves ++ new ∧
    new.map TextLeaf.positive = (justificationsOfAny normals).map Justification.positive
  numbered : Numbered before.textLeaves → Numbered after.textLeaves
  realizes : ∀ parameters leaves, Reads after parameters leaves →
    RealizesEach (testValue content page parameters leaves)
      (Leaf.holds isAlphanumeric content page) before.textLeaves.length normals children
      after.textLeaves.length

theorem positives_ofAll (earlier normals : List Normal) :
    (justificationsOfAll earlier normals).map Justification.positive =
      (justificationsOfAny normals).map Justification.positive := by
  induction normals generalizing earlier with
  | nil => rfl
  | cons normal rest ih =>
    rw [justificationsOfAll, justificationsOfAny, map_append, map_append, List.map_map, ih]
    rfl

theorem CompilesEach.all {before after : Compiler} {normals : List Normal}
    {children : List CompiledExpression}
    (each : CompilesEach isAlphanumeric content page before after normals children)
    (nonempty : normals ≠ []) :
    Compiles isAlphanumeric content page before after (.all normals) (.all children) where
  parameters := each.parameters
  leaves := by
    have ⟨new, grown, positives⟩ := each.leaves
    exact ⟨new, grown, positives.trans (positives_ofAll [] normals).symm⟩
  numbered := each.numbered
  realizes := fun parameters leaves reads => .all nonempty (each.realizes parameters leaves reads)

theorem CompilesEach.any {before after : Compiler} {normals : List Normal}
    {children : List CompiledExpression}
    (each : CompilesEach isAlphanumeric content page before after normals children)
    (nonempty : normals ≠ []) :
    Compiles isAlphanumeric content page before after (.any normals) (.any children) where
  parameters := each.parameters
  leaves := each.leaves
  numbered := each.numbered
  realizes := fun parameters leaves reads => .any nonempty (each.realizes parameters leaves reads)

theorem boundParameter_append {bound parameters : List Value} {value : Value}
    (reads : bound ++ [value] <+: parameters) :
    boundParameter parameters (bound.length + 1) = value := by
  obtain ⟨others, rfl⟩ := reads
  rw [boundParameter, Nat.add_sub_cancel, append_assoc,
    getElem?_append_right (Nat.le_refl _), Nat.sub_self]
  rfl

theorem compareValues_count (comparison : CountComparison) (count bound : Nat) :
    compareValues (sqlOperator comparison) (.integer count) (.integer bound) =
      some (comparison.holds count bound) := by
  simp only [compareValues, compareStored, compareNumber]
  rcases lt_trichotomy count bound with less | same | greater
  · have differ : ((count : Int) : ℚ) ≠ ((bound : Int) : ℚ) := by
      intro same
      have : count = bound := by exact_mod_cast same
      omega
    have below : ((count : Int) : ℚ) < ((bound : Int) : ℚ) := by exact_mod_cast less
    rw [if_neg differ, if_pos below]
    cases comparison <;>
      simp [CompareOp.accepts, sqlOperator, CountComparison.holds, less, less.le, less.ne, less.not_gt]
  · subst same
    rw [if_pos rfl]
    cases comparison <;> simp [CompareOp.accepts, sqlOperator, CountComparison.holds]
  · have differ : ((count : Int) : ℚ) ≠ ((bound : Int) : ℚ) := by
      intro same
      have : count = bound := by exact_mod_cast same
      omega
    have above : ¬((count : Int) : ℚ) < ((bound : Int) : ℚ) := by
      rw [not_lt]
      exact_mod_cast greater.le
    rw [if_neg differ, if_neg above]
    cases comparison <;>
      simp [CompareOp.accepts, sqlOperator, CountComparison.holds, greater, greater.le, greater.ne',
        greater.not_gt]

theorem compileField_spec {field : SearchField} {value : String} {span : SearchSpan}
    {before after : Compiler} {test : Test}
    (success : compileField input field value span before = .ok (test, after)) :
    before.parameters <+: after.parameters ∧ after.textLeaves = before.textLeaves ∧
      ∀ parameters leaves, after.parameters <+: parameters →
        testValue content page parameters leaves test =
          some (Leaf.holds isAlphanumeric content page (.field field value)) := by
  cases field with
  | kind =>
    obtain ⟨rfl, rfl⟩ := Prod.mk.inj (Except.ok.inj success)
    refine ⟨prefix_append _ _, rfl, fun parameters leaves reads => ?_⟩
    rw [testValue, boundParameter_append reads, compareValues_text_eq]
    rfl
  | project =>
    obtain ⟨rfl, rfl⟩ := Prod.mk.inj (Except.ok.inj success)
    refine ⟨prefix_append _ _, rfl, fun parameters leaves reads => ?_⟩
    rw [testValue, boundParameter_append reads, Leaf.holds]
    cases content.project page with
    | none => rw [Value.ofText, compareValues_null_left]; rfl
    | some project => rw [Value.ofText, compareValues_text_eq]; rfl
  | tag =>
    obtain ⟨rfl, rfl⟩ := Prod.mk.inj (Except.ok.inj success)
    refine ⟨prefix_append _ _, rfl, fun parameters leaves reads => ?_⟩
    rw [testValue, boundParameter_append reads, Leaf.holds]
    simp only [compareValues_text_eq, some_beq_some, beq_true]
    rw [contains_eq_any_beq]
    exact congrArg some (any_congr rfl fun tag => Bool.beq_comm ..)
  | attendees =>
    simp only [compileField, Compiler.bind] at success
    split at success
    · cases success
    · rename_i comparison count parsed
      obtain ⟨rfl, rfl⟩ := Prod.mk.inj (Except.ok.inj success)
      refine ⟨prefix_append _ _, rfl, fun parameters leaves reads => ?_⟩
      rw [testValue, boundParameter_append reads, compareValues_count, Leaf.holds, parsed]
      rfl

theorem textMatches_append {bound parameters : List Value} {leaves tables : List TextLeaf}
    {fts : String} {positive : Bool} (reads : bound ++ [.text fts] <+: parameters)
    (tablesRead : (tables ++ [TextLeaf.mk tables.length (bound.length + 1) positive none]).map
      TextLeaf.parameter <+: leaves.map TextLeaf.parameter) :
    textMatches content page parameters leaves tables.length = some (content.ftsMatches fts page) := by
  have found : (leaves.map TextLeaf.parameter)[tables.length]? = some (bound.length + 1) := by
    have ⟨others, same⟩ := tablesRead
    rw [← same, map_append, append_assoc, getElem?_append_right (by simp)]
    simp
  rw [getElem?_map, map_eq_some_iff] at found
  have ⟨leaf, atOrdinal, parameter⟩ := found
  rw [textMatches, atOrdinal, map_some, parameter, boundParameter_append reads]

theorem Numbered.append {leaves : List TextLeaf} (numbered : Numbered leaves) (parameter : Nat)
    (positive : Bool) :
    Numbered (leaves ++ [⟨leaves.length, parameter, positive, none⟩]) := by
  intro index leaf found
  by_cases early : index < leaves.length
  · rw [getElem?_append_left early] at found
    exact numbered index leaf found
  · rw [getElem?_append_right (by omega)] at found
    have here : index - leaves.length = 0 := by
      by_contra later
      rw [getElem?_eq_none (by simp; omega)] at found
      exact nomatch found
    rw [here] at found
    rw [← some.inj found]
    show leaves.length = index
    omega

variable {children : List SearchExpr}

theorem compileChildren_spec {negated : Bool} (spec : ∀ child ∈ children, ∀ before after compiled,
      compileExpression isAlphanumeric input child negated before = .ok (compiled, after) →
        Compiles isAlphanumeric content page before after (child.normal negated) compiled) :
    ∀ before after compiled,
      compileChildren isAlphanumeric input children negated before = .ok (compiled, after) →
        CompilesEach isAlphanumeric content page before after (normalChildren children negated)
          compiled := by
  induction children with
  | nil =>
    intro before after compiled success
    obtain ⟨rfl, rfl⟩ := Prod.mk.inj (Except.ok.inj success)
    exact ⟨prefix_rfl, ⟨[], (append_nil _).symm, rfl⟩, id, fun _ _ _ => .nil⟩
  | cons child rest ih =>
    intro before after compiled success
    rw [forall_mem_cons] at spec
    rw [compileChildren] at success
    have ⟨⟨head, middle⟩, first, success⟩ := of_bind_ok success
    have ⟨⟨others, last⟩, second, success⟩ := of_bind_ok success
    obtain ⟨rfl, rfl⟩ := Prod.mk.inj (Except.ok.inj success)
    have left := spec.1 before middle head first
    have right := ih spec.2 middle last others second
    have ⟨new, grown, positives⟩ := left.leaves
    have ⟨more, grownOn, positivesOn⟩ := right.leaves
    refine ⟨left.parameters.trans right.parameters, ⟨new ++ more, ?_, ?_⟩,
      fun numbered => right.numbered (left.numbered numbered), ?_⟩
    · rw [grownOn, grown, append_assoc]
    · rw [map_append, positives, positivesOn, ← map_append]
      rfl
    · intro parameters leaves reads
      have readsMiddle : Reads middle parameters leaves := by
        refine ⟨right.parameters.trans reads.parameters, ?_⟩
        apply List.IsPrefix.trans _ reads.tables
        rw [grownOn, map_append]
        exact prefix_append _ _
      exact .cons (left.realizes parameters leaves readsMiddle)
        (right.realizes parameters leaves reads)

theorem normalChildren_ne_nil {negated : Bool} (nonempty : children.isEmpty = false) :
    normalChildren children negated ≠ [] := by
  cases children with
  | nil => exact absurd nonempty.symm Bool.false_ne_true
  | cons child rest => exact fun empty => nomatch empty

theorem grouped_of_mem (grouped : groupedChildren children = true) {child : SearchExpr}
    (member : child ∈ children) : child.grouped = true := by
  induction children with
  | nil => exact nomatch member
  | cons head rest ih =>
    rw [groupedChildren, Bool.and_eq_true] at grouped
    rcases mem_cons.1 member with rfl | later
    · exact grouped.1
    · exact ih grouped.2 later

theorem compileExpression_spec {expression : SearchExpr} (grouped : expression.grouped = true)
    (negated : Bool) : ∀ before after compiled,
      compileExpression isAlphanumeric input expression negated before = .ok (compiled, after) →
        Compiles isAlphanumeric content page before after (expression.normal negated) compiled := by
  induction expression using SearchExpr.inductionOn generalizing negated with
  | text value mode span =>
    intro before after compiled success
    rw [compileExpression] at success
    have ⟨fts, found, success⟩ := of_bind_ok success
    have written : fts = ftsText isAlphanumeric value mode := by
      unfold ftsExpression at found
      simp only at found
      split at found
      · cases found
      · exact (Except.ok.inj found).symm
    simp only [Compiler.bind, Compiler.pushLeaf] at success
    have matched : ∀ parameters leaves, Reads
        { parameters := before.parameters ++ [.text fts],
          textLeaves := before.textLeaves ++
            [⟨before.textLeaves.length, before.parameters.length + 1, !negated, none⟩] }
        parameters leaves →
        testValue content page parameters leaves (.existsText before.textLeaves.length) =
          some (Leaf.holds isAlphanumeric content page (.text value mode)) := by
      intro parameters leaves reads
      rw [testValue, textMatches_append reads.parameters reads.tables, Leaf.holds, written]
    cases negated with
    | true =>
      rw [if_pos rfl] at success
      obtain ⟨rfl, rfl⟩ := Prod.mk.inj (Except.ok.inj success)
      refine ⟨prefix_append _ _, ⟨_, rfl, rfl⟩, fun numbered => numbered.append _ _,
        fun parameters leaves reads => ?_⟩
      rw [length_append, length_singleton]
      exact .negatedText (matched parameters leaves reads)
    | false =>
      rw [if_neg Bool.false_ne_true] at success
      obtain ⟨rfl, rfl⟩ := Prod.mk.inj (Except.ok.inj success)
      refine ⟨prefix_append _ _, ⟨_, rfl, rfl⟩, fun numbered => numbered.append _ _,
        fun parameters leaves reads => ?_⟩
      rw [length_append, length_singleton]
      exact .positiveText (matched parameters leaves reads)
  | field field value span =>
    intro before after compiled success
    rw [compileExpression] at success
    have ⟨⟨test, grown⟩, found, success⟩ := of_bind_ok success
    obtain ⟨rfl, rfl⟩ := Prod.mk.inj (Except.ok.inj success)
    have ⟨parameters, sameLeaves, evaluates⟩ :=
      @compileField_spec _ content page isAlphanumeric _ _ _ _ _ _ _ found
    refine ⟨parameters, ⟨[], by rw [sameLeaves, append_nil], rfl⟩,
      fun numbered => by rwa [sameLeaves], fun bound leaves reads => ?_⟩
    rw [sameLeaves]
    apply Realizes.field
    have value := evaluates bound leaves reads.parameters
    cases negated with
    | true => rw [if_pos rfl, Condition.eval, Condition.eval, value, Kleene.not_some, Bool.not_true,
        beq_false]
    | false => rw [if_neg Bool.false_ne_true, Condition.eval, value, Bool.not_false, beq_true]
  | all children span ih =>
    intro before after compiled success
    rw [SearchExpr.grouped, Bool.and_eq_true, Bool.not_eq_true'] at grouped
    rw [compileExpression] at success
    have ⟨⟨parts, last⟩, each, success⟩ := of_bind_ok success
    obtain ⟨rfl, rfl⟩ := Prod.mk.inj (Except.ok.inj success)
    have realized := compileChildren_spec
      (fun child member => ih child member (grouped_of_mem grouped.2 member) negated)
      before last parts each
    cases negated with
    | true => exact realized.any (normalChildren_ne_nil grouped.1)
    | false => exact realized.all (normalChildren_ne_nil grouped.1)
  | any children span ih =>
    intro before after compiled success
    rw [SearchExpr.grouped, Bool.and_eq_true, Bool.not_eq_true'] at grouped
    rw [compileExpression] at success
    have ⟨⟨parts, last⟩, each, success⟩ := of_bind_ok success
    obtain ⟨rfl, rfl⟩ := Prod.mk.inj (Except.ok.inj success)
    have realized := compileChildren_spec
      (fun child member => ih child member (grouped_of_mem grouped.2 member) negated)
      before last parts each
    cases negated with
    | true => exact realized.all (normalChildren_ne_nil grouped.1)
    | false => exact realized.any (normalChildren_ne_nil grouped.1)
  | not child span ih =>
    intro before after compiled success
    rw [compileExpression] at success
    exact ih grouped (!negated) before after compiled success

/-! ### When there is a condition -/

theorem compileField_isOk_iff {field : SearchField} {value : String} {span : SearchSpan}
    {before : Compiler} :
    (∃ result, compileField input field value span before = .ok result) ↔
      (SearchExpr.field field value span).compilable isAlphanumeric = true := by
  cases field with
  | kind | project | tag => exact ⟨fun _ => rfl, fun _ => ⟨_, rfl⟩⟩
  | attendees =>
    simp only [compileField, SearchExpr.compilable]
    cases parseCountComparison value with
    | none => simp
    | some wanted => simp

theorem compileChildren_isOk_iff {negated : Bool} (spec : ∀ child ∈ children, ∀ before,
      (∃ result, compileExpression isAlphanumeric input child negated before = .ok result) ↔
        child.compilable isAlphanumeric = true) :
    ∀ before, (∃ result, compileChildren isAlphanumeric input children negated before = .ok result) ↔
      compilableChildren isAlphanumeric children = true := by
  induction children with
  | nil => exact fun before => ⟨fun _ => rfl, fun _ => ⟨_, rfl⟩⟩
  | cons child rest ih =>
    intro before
    rw [forall_mem_cons] at spec
    rw [compilableChildren, Bool.and_eq_true, compileChildren, ← spec.1 before]
    constructor
    · rintro ⟨result, success⟩
      have ⟨⟨head, middle⟩, first, success⟩ := of_bind_ok success
      obtain ⟨others, second, -⟩ := of_bind_ok success
      exact ⟨⟨_, first⟩, (ih spec.2 middle).1 ⟨_, second⟩⟩
    · rintro ⟨⟨⟨head, middle⟩, first⟩, compilable⟩
      have ⟨others, second⟩ := (ih spec.2 middle).2 compilable
      rw [first]
      refine ⟨(head :: others.1, others.2), ?_⟩
      show (compileChildren isAlphanumeric input rest negated middle >>= _) = _
      rw [second]
      rfl

theorem compileExpression_isOk_iff {expression : SearchExpr} (negated : Bool) : ∀ before,
    (∃ result, compileExpression isAlphanumeric input expression negated before = .ok result) ↔
      expression.compilable isAlphanumeric = true := by
  induction expression using SearchExpr.inductionOn generalizing negated with
  | text value mode span =>
    intro before
    rw [compileExpression, SearchExpr.compilable, ftsExpression]
    by_cases empty : (ftsText isAlphanumeric value mode).isEmpty = true
    · simp only [empty]
      exact ⟨fun ⟨_, failure⟩ => (nomatch failure), fun impossible => (nomatch impossible)⟩
    · simp only [if_neg empty]
      rw [Bool.not_eq_true] at empty
      rw [empty]
      refine ⟨fun _ => rfl, fun _ => ?_⟩
      cases negated with
      | true => exact ⟨_, rfl⟩
      | false => exact ⟨_, rfl⟩
  | field field value span =>
    intro before
    rw [compileExpression, ← @compileField_isOk_iff isAlphanumeric input field value span before]
    exact bind_isOk_iff fun _ => ⟨_, rfl⟩
  | all children span ih | any children span ih =>
    intro before
    rw [compileExpression, SearchExpr.compilable, ← compileChildren_isOk_iff
      (fun child member => ih child member negated) before]
    exact bind_isOk_iff fun _ => ⟨_, rfl⟩
  | not child span ih =>
    intro before
    rw [compileExpression, SearchExpr.compilable]
    exact ih (!negated) before

end Compiled

/-! ### What is kept implies the whole -/

mutual

theorem holds_of_kept {test : Leaf → Bool} : ∀ (normal : Normal) {justification : Justification},
    justification ∈ normal.justifications → justification.kept.holds test = true →
      normal.holds test = true
  | .literal _ (.text _ _), justification, member, kept => by
    rw [Normal.justifications, mem_singleton] at member
    rwa [member] at kept
  | .literal _ (.field _ _), _, member, _ => nomatch member
  | .any children, _, member, kept => someHolds_of_kept children member kept
  | .all children, _, member, kept => by
    rw [← nil_append children]
    exact everyHolds_of_kept [] children member kept

theorem someHolds_of_kept {test : Leaf → Bool} : ∀ (children : List Normal)
    {justification : Justification}, justification ∈ justificationsOfAny children →
      justification.kept.holds test = true → someHolds test children = true
  | [], _, member, _ => nomatch member
  | child :: rest, justification, member, kept => by
    rw [someHolds, Bool.or_eq_true]
    rw [justificationsOfAny, mem_append] at member
    rcases member with here | later
    · exact Or.inl (holds_of_kept child here kept)
    · exact Or.inr (someHolds_of_kept rest later kept)

theorem everyHolds_of_kept {test : Leaf → Bool} : ∀ (earlier children : List Normal)
    {justification : Justification}, justification ∈ justificationsOfAll earlier children →
      justification.kept.holds test = true → (Normal.all (earlier ++ children)).holds test = true
  | _, [], _, member, _ => nomatch member
  | earlier, child :: rest, justification, member, kept => by
    rw [justificationsOfAll, mem_append] at member
    rcases member with here | later
    · obtain ⟨inner, found, rfl⟩ := List.mem_map.1 here
      rw [Normal.holds, everyHolds_eq_all, all_append, all_cons] at kept ⊢
      simp only [Bool.and_eq_true] at kept ⊢
      exact ⟨kept.1, holds_of_kept child found kept.2.1, kept.2.2⟩
    · have holds := everyHolds_of_kept (earlier ++ [child]) rest later kept
      rwa [append_assoc] at holds

end

/-! ### Compiled queries -/

variable {expression : SearchExpr} {query : CompiledQuery}

theorem compile_eq {isAlphanumeric : Char → Bool} {input : List Char} {limit : Nat}
    (success : compile isAlphanumeric input expression limit = .ok query) :
    ∃ compiled compiler, compileExpression isAlphanumeric input expression false .new =
        .ok (compiled, compiler) ∧ query.condition = compiled.render ∧
      query.textLeaves = List.zipWith TextLeaf.supportedBy compiler.textLeaves
        (compiled.collectPositiveSupport .one (List.replicate compiler.textLeaves.length none)) ∧
      query.parameters = compiler.parameters ++ [.integer (min limit (2 ^ 63 - 1))] ∧
      query.limitParameter = compiler.parameters.length + 1 := by
  unfold compile at success
  have ⟨⟨compiled, compiler⟩, compiles, success⟩ := of_bind_ok success
  obtain rfl := Except.ok.inj success
  exact ⟨compiled, compiler, compiles, rfl, rfl, rfl, rfl⟩

theorem compile_isOk_iff {isAlphanumeric : Char → Bool} {input : List Char} {limit : Nat} :
    (∃ query, compile isAlphanumeric input expression limit = .ok query) ↔
      expression.compilable isAlphanumeric = true := by
  rw [← @compileExpression_isOk_iff isAlphanumeric input expression false .new]
  constructor
  · rintro ⟨query, success⟩
    obtain ⟨compiled, compiler, compiles, -⟩ := compile_eq success
    exact ⟨_, compiles⟩
  · rintro ⟨result, compiles⟩
    unfold compile
    rw [compiles]
    exact ⟨_, rfl⟩

theorem supportedBy_same (leaf : TextLeaf) (support : Option Condition) :
    (leaf.supportedBy support).ordinal = leaf.ordinal ∧
      (leaf.supportedBy support).parameter = leaf.parameter ∧
      (leaf.supportedBy support).positive = leaf.positive := by
  unfold TextLeaf.supportedBy
  split <;> exact ⟨rfl, rfl, rfl⟩

theorem map_parameter_supportedBy {leaves : List TextLeaf} {supports : List (Option Condition)}
    (sameLength : supports.length = leaves.length) :
    (List.zipWith TextLeaf.supportedBy leaves supports).map TextLeaf.parameter =
      leaves.map TextLeaf.parameter := by
  induction leaves generalizing supports with
  | nil => rfl
  | cons leaf rest ih =>
    cases supports with
    | nil => exact nomatch sameLength
    | cons support others =>
      rw [zipWith_cons_cons, map_cons, map_cons, (supportedBy_same _ _).2.1,
        ih (Nat.succ.inj sameLength)]

mutual

theorem length_collectPositiveSupport : ∀ (compiled : CompiledExpression) (context : Condition)
    (support : List (Option Condition)),
      (compiled.collectPositiveSupport context support).length = support.length
  | .predicate _, _, _ => rfl
  | .positiveText _ _, _, _ => length_set
  | .any children, context, support => length_collectFromAny children context support
  | .all children, context, support => length_collectFromAll children [] context support

theorem length_collectFromAny : ∀ (children : List CompiledExpression) (context : Condition)
    (support : List (Option Condition)),
      (collectFromAny children context support).length = support.length
  | [], _, _ => rfl
  | child :: rest, context, support => by
    rw [collectFromAny, length_collectFromAny rest, length_collectPositiveSupport child]

theorem length_collectFromAll : ∀ (children : List CompiledExpression) (earlier : List Condition)
    (context : Condition) (support : List (Option Condition)),
      (collectFromAll earlier children context support).length = support.length
  | [], _, _, _ => rfl
  | child :: rest, earlier, context, support => by
    rw [collectFromAll, length_collectFromAll rest, length_collectPositiveSupport child]

end

theorem getElem?_supportedBy {leaves : List TextLeaf} {supports : List (Option Condition)}
    {ordinal : Nat} {leaf : TextLeaf} {support : Option Condition}
    (leafAt : leaves[ordinal]? = some leaf) (supportAt : supports[ordinal]? = some support) :
    (List.zipWith TextLeaf.supportedBy leaves supports)[ordinal]? =
      some (leaf.supportedBy support) := by
  rw [getElem?_zipWith, leafAt, supportAt]

theorem justifies_eq {Page : Type} {content : IndexContent Page} {page : Page} {leaf : TextLeaf}
    {support : Condition} {holdsText : Bool}
    (matched : textMatches content page query.parameters query.textLeaves leaf.ordinal =
      some holdsText) (supported : leaf.support = some support) :
    query.justifies content page leaf =
      (holdsText && query.eval content page support == some true) := by
  rw [CompiledQuery.justifies, matched, supported, any_some, some_beq_some, beq_true]

theorem justifies_of_compile {Page : Type} {isAlphanumeric : Char → Bool} {input : List Char}
    {limit : Nat} (grouped : expression.grouped = true)
    (success : compile isAlphanumeric input expression limit = .ok query)
    (content : IndexContent Page) (page : Page) :
    query.selects content page = expression.holds isAlphanumeric content page ∧
      query.textLeaves.length = (expression.normal false).justifications.length ∧
      ∀ ordinal justification,
        (expression.normal false).justifications[ordinal]? = some justification →
        ∃ leaf, query.textLeaves[ordinal]? = some leaf ∧ leaf.ordinal = ordinal ∧
          leaf.positive = justification.positive ∧
          (leaf.positive = true → leaf.support.isSome = true ∧ query.justifies content page leaf =
              justification.kept.holds (Leaf.holds isAlphanumeric content page) ∧
            (query.justifies content page leaf = true → query.selects content page = true)) := by
  obtain ⟨compiled, compiler, compiles, condition, textLeaves, parameters, -⟩ := compile_eq success
  have spec : Compiles isAlphanumeric content page .new compiler _ compiled :=
    compileExpression_spec grouped false _ _ _ compiles
  have ⟨leaves, grown, positives⟩ := spec.leaves
  rw [show (Compiler.new).textLeaves ++ leaves = leaves from rfl] at grown
  have sameLength : leaves.length = (expression.normal false).justifications.length := by
    rw [← length_map (f := TextLeaf.positive), positives, length_map]
  rw [grown] at textLeaves
  have room : compiler.textLeaves.length ≤
      (List.replicate leaves.length (none : Option Condition)).length := by
    rw [length_replicate, grown]
  have supportsLength := length_collectPositiveSupport compiled .one
    (List.replicate leaves.length none)
  rw [length_replicate] at supportsLength
  have reads : Reads compiler query.parameters query.textLeaves := by
    refine ⟨parameters ▸ prefix_append _ _, ?_⟩
    rw [textLeaves, map_parameter_supportedBy supportsLength, grown]
  have realizes := spec.realizes _ _ reads
  have collected := realizes.collected .one _ room
  have selected : query.selects content page = expression.holds isAlphanumeric content page := by
    rw [CompiledQuery.selects, CompiledQuery.eval, condition, realizes.eval_render, holds_normal,
      some_beq_some, beq_true, Bool.bne_false]
  refine ⟨selected, ?_, fun ordinal justification found => ?_⟩
  · rw [textLeaves, length_zipWith, supportsLength, Nat.min_self, sameLength]
  · have inRange : ordinal < leaves.length := by
      rw [sameLength]
      exact (List.getElem?_eq_some_iff.1 found).1
    obtain ⟨leaf, leafAt⟩ : ∃ leaf, leaves[ordinal]? = some leaf := ⟨_, getElem?_eq_getElem inRange⟩
    obtain ⟨support, supportAt⟩ : ∃ support,
        (compiled.collectPositiveSupport .one (List.replicate leaves.length none))[ordinal]? =
          some support :=
      ⟨_, getElem?_eq_getElem (by rw [supportsLength]; exact inRange)⟩
    have ordinalHere : leaf.ordinal = ordinal := by
      apply spec.numbered fun _ _ none => nomatch none
      rw [grown, leafAt]
    have samePositive : leaf.positive = justification.positive := by
      have mapped := congrArg (fun signs => signs[ordinal]?) positives
      rw [getElem?_map, getElem?_map, leafAt, found] at mapped
      exact some.inj mapped
    obtain ⟨keepsOrdinal, -, keepsPositive⟩ := supportedBy_same leaf support
    refine ⟨leaf.supportedBy support, textLeaves ▸ getElem?_supportedBy leafAt supportAt,
      keepsOrdinal.trans ordinalHere, keepsPositive.trans samePositive, fun positive => ?_⟩
    rw [keepsPositive] at positive
    have ⟨condition, stored, matched, meaning⟩ :=
      collected.inside ordinal justification found (samePositive ▸ positive)
    rw [show Compiler.new.textLeaves.length + ordinal = ordinal from Nat.zero_add _] at stored matched
    obtain rfl := some.inj (supportAt.symm.trans stored)
    have supported : (leaf.supportedBy (some condition)).support = some condition := by
      rw [TextLeaf.supportedBy, if_pos positive]
    have justified : query.justifies content page (leaf.supportedBy (some condition)) =
        justification.kept.holds (Leaf.holds isAlphanumeric content page) := by
      rw [justifies_eq (by rw [keepsOrdinal, ordinalHere]; exact matched) supported,
        Bool.eq_iff_iff, Bool.and_eq_true, beq_iff_eq]
      exact and_comm.trans (meaning.trans (and_iff_right rfl))
    refine ⟨by rw [supported]; rfl, justified, fun justifies => ?_⟩
    rw [selected, ← Bool.bne_false (expression.holds isAlphanumeric content page), ← holds_normal]
    exact holds_of_kept _ (mem_of_getElem? found) (justified ▸ justifies)

/-- A condition is built exactly when all leaves can be compiled, and selects the pages on which
the expression holds. A positive text with its support holds exactly where what is kept for it
does. -/
theorem compile_preserves_meaning {Page : Type} (isAlphanumeric : Char → Bool) (input : List Char)
    (limit : Nat) {expression : SearchExpr} (grouped : expression.grouped = true) :
    ((∃ query, compile isAlphanumeric input expression limit = .ok query) ↔
        expression.compilable isAlphanumeric = true) ∧
      ∀ query, compile isAlphanumeric input expression limit = .ok query →
        ∀ (content : IndexContent Page) (page : Page),
          query.selects content page = expression.holds isAlphanumeric content page ∧
          query.textLeaves.length = (expression.normal false).justifications.length ∧
          ∀ ordinal justification,
            (expression.normal false).justifications[ordinal]? = some justification →
            ∃ leaf, query.textLeaves[ordinal]? = some leaf ∧ leaf.ordinal = ordinal ∧
              leaf.positive = justification.positive ∧
              (leaf.positive = true → leaf.support.isSome = true ∧
                query.justifies content page leaf =
                  justification.kept.holds (Leaf.holds isAlphanumeric content page) ∧
                (query.justifies content page leaf = true → query.selects content page = true)) := by
  exact ⟨compile_isOk_iff, fun _ success => justifies_of_compile grouped success⟩

/-- `(tag:beer | clep) -draft` -/
def sampleExpression : SearchExpr :=
  .all [.any [.field .tag "beer" ⟨1, 9⟩, .text "clep" .leading ⟨12, 16⟩] ⟨0, 17⟩,
    .not (.text "draft" .leading ⟨19, 24⟩) ⟨18, 24⟩] ⟨0, 24⟩

/-- On a page tagged `beer` the text `clep` still counts only if the page has it. -/
theorem compile_preserves_meaning_beer :
    ∃ query leaf, compile Char.isAlphanum "(tag:beer | clep) -draft".toList sampleExpression 7 =
        .ok query ∧ query.textLeaves[0]? = some leaf ∧
      ∀ (content : IndexContent Nat) (page : Nat),
        query.selects content page = sampleExpression.holds Char.isAlphanum content page ∧
        query.justifies content page leaf =
          (content.ftsMatches "\"clep\"*" page && !content.ftsMatches "\"draft\"*" page) := by
  have ⟨isOk, meaning⟩ := @compile_preserves_meaning Nat Char.isAlphanum
    "(tag:beer | clep) -draft".toList 7 sampleExpression (by decide)
  have ⟨query, success⟩ := isOk.2 (by decide)
  obtain ⟨leaf, leafAt⟩ : ∃ leaf, query.textLeaves[0]? = some leaf := by
    obtain ⟨-, -, leaves⟩ :=
      meaning query success ⟨fun _ => "", fun _ => none, fun _ => [], fun _ => [], fun _ _ => false⟩ 0
    obtain ⟨leaf, leafAt, -⟩ := leaves 0 _ rfl
    exact ⟨leaf, leafAt⟩
  refine ⟨query, leaf, success, leafAt, fun content page => ?_⟩
  obtain ⟨selects, -, leaves⟩ := meaning query success content page
  obtain ⟨same, sameAt, -, positive, supports⟩ := leaves 0 _ rfl
  obtain rfl := some.inj (leafAt.symm.trans sameAt)
  have clep : ftsText Char.isAlphanum "clep" .leading = "\"clep\"*" := by decide
  have draft : ftsText Char.isAlphanum "draft" .leading = "\"draft\"*" := by decide
  refine ⟨selects, (supports positive).2.1.trans ?_⟩
  simp [Normal.holds, everyHolds, Leaf.holds, normalChildren, SearchExpr.normal, clep, draft]

end Clepsydra.Search
