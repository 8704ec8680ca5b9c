import Clepsydra.Bases.Member

/-!
Owns: what a field holds, which comparisons test for a value exactly, and which lists intersect.

Proves: the members that satisfy the filters hold the implied values when every comparison that
implies one is exact and the lists can be intersected.
-/

namespace Clepsydra.Bases

open Library.Fallible Vault List
open Option (some.inj)

/-! ### What a field holds -/

def isLiteral (type : PropertyType) (current : Comparable) (value : Json) : Bool :=
  (expectedScalar type value).any (scalarEqual current)

def tomlIsLiteral (type : PropertyType) (current : TomlValue) (value : Json) : Bool :=
  (currentScalar current type).any fun scalar => isLiteral type scalar value

def lists (current : List String) : Json → Bool
  | .string text => current.contains text
  | _ => false

def BaseDefinition.typeOf (base : BaseDefinition) (key : String) (today : NaiveDate) :
    PropertyType :=
  (QueryContext.forBase base today).propertyType key

def holdsValue (context : MetaFilterContext) : FieldIdentity → Json → Bool
  | .system .tags, value => lists context.effectiveTags value
  | .system .aliases, value => lists context.page.aliases value
  | .system sys, value =>
    (systemScalar sys context).any fun scalar => isLiteral sys.propertyType scalar value
  | .property key, value =>
    let type := context.base.typeOf key context.today
    match context.page.extra.value key with
    | some (.array items) => items.any fun item => tomlIsLiteral type item value
    | some current => tomlIsLiteral type current value
    | none => false

/-! ### Exact tests -/

section Exact

variable (base : BaseDefinition) (today : NaiveDate)

/-- Whether a comparison of a field that implies a value holds only where the value is. -/
def isExact (identity : FieldIdentity) (op : Op) : Bool :=
  match identity with
  | .system .aliases => false
  | .system .tags => true
  | .system sys => op ≠ .contains || !sys.propertyType.supportsContains
  | .property key =>
    op ≠ .contains || (base.typeOf key today).isCategorical
      || !(base.typeOf key today).supportsContains

def Filter.op? : Filter → Option Op
  | .cmp _ op _ => some op
  | _ => none

mutual

def impliers (identity : FieldIdentity) : Filter → List Op
  | .all children => impliersOfAll identity children
  | .any children =>
    match singleFieldAlternatives base today children with
    | some (found, _) => if found = identity then children.filterMap Filter.op? else []
    | none => []
  | .not _ => []
  | .cmp field op value =>
    match resolvedRequirement base today field with
    | some (found, _) =>
      if found = identity ∧ (implicationOf op value).isSome then [op] else []
    | none => []

def impliersOfAll (identity : FieldIdentity) : List Filter → List Op
  | [] => []
  | child :: children => impliers identity child ++ impliersOfAll identity children

end

end Exact

/-! ### Scalars -/

section Leaves

variable (externals : Externals) {op : Op} {value : Json} {implication : Implication}

theorem implicationOf_eq_some (implies : implicationOf op value = some implication) :
    ((op = .eq ∨ op = .contains) ∧ implication = .fixed value) ∨
      op = .isIn ∧ ∃ items, value = .array items ∧ implication = .choice items := by
  unfold implicationOf at implies
  split_ifs at implies
  split at implies
  · cases implies
    exact Or.inl ⟨Or.inl rfl, rfl⟩
  · cases implies
    exact Or.inl ⟨Or.inr rfl, rfl⟩
  · split at implies
    · contradiction
    · contradiction
    · rename_i items _ found
      cases implies
      refine Or.inr ⟨rfl, items, ?_, rfl⟩
      cases value with
      | array values => rw [some.inj found]
      | _ => contradiction
  · contradiction

variable {type : PropertyType}

theorem presentMatches_isIn {current : Comparable} {items : List Json} {exact : Bool}
    (matched : presentMatches externals current type .isIn (.array items) exact = true) :
    ∃ value ∈ items, isLiteral type current value = true := by
  simp only [presentMatches] at matched
  have ⟨expected, mapped, found⟩ := (Option.any_eq_true _ _).1 matched
  have ⟨scalar, member, equal⟩ := any_eq_true.1 found
  have ⟨value, inItems, expects⟩ :=
    exists_of_forall₂ (forall₂_of_mapM_eq_some mapped).flip scalar member
  exact ⟨value, inItems, (Option.any_eq_true _ _).2 ⟨scalar, expects, equal⟩⟩

variable {today : NaiveDate} (implies : implicationOf op value = some implication)

include implies

theorem isLiteral_of_scalarMatches {current : Option Comparable} {exact : Bool}
    (isExact : op = .contains → exact = true ∨ type.supportsContains = false)
    (matched : scalarMatches externals current type op value exact today = true) :
    ∃ scalar, current = some scalar ∧
      ∃ literal ∈ implication.values, isLiteral type scalar literal = true := by
  obtain ⟨tests, rfl⟩ | ⟨rfl, items, rfl, rfl⟩ := implicationOf_eq_some implies
  · have equals : ∃ scalar, current = some scalar ∧ isLiteral type scalar value = true := by
      obtain rfl | rfl := tests
      · cases current with
        | none => contradiction
        | some scalar =>
          have accepts : expects type value
              (fun expected => orderingAccepts .eq (scalarOrdering scalar expected)) = true :=
            matched
          obtain ⟨expected, expects, accepted⟩ := (Option.any_eq_true _ _).1 accepts
          refine ⟨scalar, rfl, (Option.any_eq_true _ _).2 ⟨expected, expects, ?_⟩⟩
          rw [scalarEqual, beq_iff_eq]
          unfold orderingAccepts at accepted
          split at accepted <;> simp_all
      · cases supported : type.supportsContains with
        | false => simp [scalarMatches, Op.isRelativeDate, supported] at matched
        | true =>
          rw [supported] at isExact
          have isMember := (isExact rfl).resolve_right (by simp)
          cases current with
          | none => simp [scalarMatches, Op.isRelativeDate, absentMatches] at matched
          | some scalar =>
            refine ⟨scalar, rfl, ?_⟩
            simpa [scalarMatches, Op.isRelativeDate, supported, presentMatches, isMember,
              expects, isLiteral] using matched
    obtain ⟨scalar, isCurrent, equal⟩ := equals
    exact ⟨scalar, isCurrent, value, mem_cons_self, equal⟩
  · cases current with
    | none => contradiction
    | some scalar =>
      have present : presentMatches externals scalar type .isIn (.array items) exact = true :=
        matched
      exact ⟨scalar, rfl, presentMatches_isIn externals present⟩

theorem lists_of_membershipMatches {current : List String}
    (matched : membershipMatches externals current op value false = true) :
    ∃ literal ∈ implication.values, lists current literal = true := by
  obtain ⟨tests, rfl⟩ | ⟨rfl, items, rfl, rfl⟩ := implicationOf_eq_some implies
  · refine ⟨value, mem_cons_self, ?_⟩
    have contains : value.asString.any (membershipContains externals current false) = true := by
      obtain rfl | rfl := tests
      · exact matched
      · exact matched
    have ⟨text, isText, found⟩ := (Option.any_eq_true _ _).1 contains
    cases value with
    | string value =>
      rw [← some.inj isText] at found
      simpa [membershipContains, lists] using found
    | _ => contradiction
  · have found : (items.filterMap Json.asString).any
        (membershipContains externals current false) = true := by
      have both : (items.all _ && _) = true := matched
      exact (Bool.and_eq_true_iff.1 both).2
    have ⟨text, member, contained⟩ := any_eq_true.1 found
    have ⟨literal, inItems, isText⟩ := mem_filterMap.1 member
    refine ⟨literal, inItems, ?_⟩
    cases literal with
    | string value =>
      rw [← some.inj isText] at contained
      simpa [membershipContains, lists] using contained
    | _ => contradiction

theorem tomlIsLiteral_of_matches {current : TomlValue}
    (isExact : op = .contains → type.isCategorical = true ∨ type.supportsContains = false)
    (matched : propertyScalarMatches externals current type op value today = true) :
    ∃ literal ∈ implication.values, tomlIsLiteral type current literal = true := by
  rw [propertyScalarMatches, Bool.and_eq_true] at matched
  obtain ⟨scalar, isScalar, literal, member, equal⟩ :=
    isLiteral_of_scalarMatches externals implies isExact matched.2
  refine ⟨literal, member, ?_⟩
  rw [tomlIsLiteral, isScalar]
  exact equal

omit implies

variable {context : MetaFilterContext}

theorem holdsValue_of_propertyMatches {key : String}
    {linkTargets : Option (List CandidateLinkTarget)}
    (implies : implicationOf op value = some implication)
    (exact : isExact context.base context.today (.property key) op = true)
    (matched : propertyMatches externals (context.page.extra.value key)
      (context.base.typeOf key context.today) op value linkTargets context.today = true) :
    ∃ literal ∈ implication.values, holdsValue context (.property key) literal = true := by
  have isExact : op = .contains → (context.base.typeOf key context.today).isCategorical = true ∨
      (context.base.typeOf key context.today).supportsContains = false := by
    rintro rfl
    simpa [Clepsydra.Bases.isExact] using exact
  have forces : op = .eq ∨ op = .contains ∨ op = .isIn := by
    obtain ⟨rfl | rfl, -⟩ | ⟨rfl, -⟩ := implicationOf_eq_some implies <;> simp
  -- a value that is not there passes no such test
  have present : ∃ current, context.page.extra.value key = some current ∧
      presentPropertyMatches externals current (context.base.typeOf key context.today) op value
        context.today = true := by
    unfold propertyMatches at matched
    cases filtered : (context.page.extra.value key).filter
        (fun current => !tomlValueIsEmpty current) with
    | none =>
      rw [filtered] at matched
      obtain rfl | rfl | rfl := forces <;> simp [absentMatches] at matched
    | some current =>
      rw [filtered] at matched
      refine ⟨current, (Option.filter_eq_some_iff.1 filtered).1, ?_⟩
      obtain rfl | rfl | rfl := forces <;> simp at matched
      · exact matched
      · exact matched.2
      · exact matched
  obtain ⟨current, found, passes⟩ := present
  simp only [holdsValue, found]
  cases current with
  | array items =>
    have some : items.any (fun item => propertyScalarMatches externals item
        (context.base.typeOf key context.today) op value context.today) = true := by
      obtain rfl | rfl | rfl := forces <;> exact passes
    obtain ⟨item, member, itemPasses⟩ := any_eq_true.1 some
    obtain ⟨literal, isImplied, equal⟩ :=
      tomlIsLiteral_of_matches externals implies isExact itemPasses
    exact ⟨literal, isImplied, any_eq_true.2 ⟨item, member, equal⟩⟩
  | _ => exact tomlIsLiteral_of_matches externals implies isExact passes

variable {identity : FieldIdentity}

theorem resolvedRequirement_eq_some {base : BaseDefinition} {field requestKey : String}
    (resolves : resolvedRequirement base today field = some (identity, requestKey)) :
    (∃ sys, identity = .system sys ∧ resolveField field (.forBase base today) = .ok (.sys sys)) ∨
    ∃ key, identity = .property key ∧
      resolveField field (.forBase base today) = .ok (.prop key (base.typeOf key today)) := by
  unfold resolvedRequirement at resolves
  split at resolves
  · contradiction
  · rename_i sys found
    cases resolves
    exact Or.inl ⟨sys, rfl, found⟩
  · rename_i key type found
    have typed : type = base.typeOf key today := propertyType_of_resolve found
    rw [typed] at found
    split at resolves <;> cases resolves <;> exact Or.inr ⟨_, rfl, found⟩

theorem holdsValue_of_cmp {field requestKey : String}
    (resolves : resolvedRequirement context.base context.today field = some (identity, requestKey))
    (implies : implicationOf op value = some implication)
    (exact : isExact context.base context.today identity op = true)
    (matched : cmpMatchesMeta externals field op value context = true) :
    ∃ literal ∈ implication.values, holdsValue context identity literal = true := by
  unfold cmpMatchesMeta at matched
  obtain ⟨sys, rfl, found⟩ | ⟨key, rfl, found⟩ := resolvedRequirement_eq_some resolves
  · rw [found] at matched
    have scalar : sys ≠ .tags → sys ≠ .aliases →
        scalarMatches externals (systemScalar sys context) (systemMatchType sys op) op value false
          context.today = true →
        (op = .contains → sys.propertyType.supportsContains = false) →
        ∃ literal ∈ implication.values,
          (systemScalar sys context).any (fun scalar => isLiteral sys.propertyType scalar literal) =
            true := by
      intro _ _ matched unsupported
      have typed : systemMatchType sys op = sys.propertyType := by
        obtain ⟨rfl | rfl, -⟩ | ⟨rfl, -⟩ := implicationOf_eq_some implies <;> rfl
      rw [typed] at matched
      have ⟨current, isCurrent, literal, member, equal⟩ :=
        isLiteral_of_scalarMatches externals implies (fun contains => Or.inr (unsupported contains))
          matched
      exact ⟨literal, member, (Option.any_eq_true _ _).2 ⟨current, isCurrent, equal⟩⟩
    cases sys with
    | aliases => contradiction
    | tags => exact lists_of_membershipMatches externals implies matched
    | _ =>
      refine scalar nofun nofun matched ?_
      rintro rfl
      simpa [isExact] using exact
  · rw [found] at matched
    exact holdsValue_of_propertyMatches externals implies exact matched

theorem exists_of_someMatches {children : List Filter}
    (matched : someMatches externals context children = true) :
    ∃ child ∈ children, filterMatchesMeta externals context child = true := by
  induction children with
  | nil => contradiction
  | cons child children ih =>
    rw [someMatches, Bool.or_eq_true] at matched
    obtain first | later := matched
    · exact ⟨child, mem_cons_self, first⟩
    · have ⟨other, member, holds⟩ := ih later
      exact ⟨other, mem_cons_of_mem _ member, holds⟩

theorem holdsValue_of_alternatives {children : List Filter} {values : List Json}
    (alternatives : singleFieldAlternatives context.base context.today children =
      some (identity, values)) (matched : someMatches externals context children = true)
    (exact : ∀ op ∈ children.filterMap Filter.op?,
      isExact context.base context.today identity op = true) :
    ∃ literal ∈ values, holdsValue context identity literal = true := by
  have ⟨child, member, holds⟩ := exists_of_someMatches externals matched
  have ⟨value, isValue, isAlternative⟩ :=
    exists_of_forall₂ (singleFieldAlternatives_eq_some alternatives).2 child member
  obtain ⟨field, op, requestKey, rfl, tests, resolves, notNull⟩ := alternative_eq_some isAlternative
  have isImplier := exact op (mem_filterMap.2 ⟨_, member, rfl⟩)
  have implies : implicationOf op value = some (.fixed value) := by
    unfold implicationOf
    rw [notNull]
    obtain rfl | rfl := tests <;> rfl
  have ⟨literal, isLiteral, held⟩ := holdsValue_of_cmp externals resolves implies isImplier holds
  rw [mem_singleton.1 isLiteral] at held
  exact ⟨value, isValue, held⟩

mutual

/-- A member that satisfies a filter holds a value each predicate in conjunctive position implies. -/
theorem holdsValue_of_conjuncts {context : MetaFilterContext} {identity : FieldIdentity} :
    (filter : Filter) → filterMatchesMeta externals context filter = true →
      (∀ op ∈ impliers context.base context.today identity filter,
        isExact context.base context.today identity op = true) →
      ∀ each ∈ conjuncts context.base context.today identity filter,
        ∃ literal ∈ each.values, holdsValue context identity literal = true
  | .all children, matched, exact => by
    rw [conjuncts]
    rw [impliers] at exact
    exact holdsValue_of_conjunctsOfAll children matched exact
  | .any children, matched, exact => by
    intro each member
    rw [conjuncts] at member
    rw [impliers] at exact
    split at member
    · rename_i found values alternatives
      simp only [alternatives] at exact
      split_ifs at member with same
      · rw [mem_singleton.1 member]
        rw [if_pos same] at exact
        exact holdsValue_of_alternatives externals (same ▸ alternatives) matched exact
      · contradiction
    · contradiction
  | .not _, _, _ => nofun
  | .cmp field op value, matched, exact => by
    intro each member
    rw [conjuncts] at member
    rw [impliers] at exact
    split at member
    · rename_i found requestKey resolves
      split_ifs at member with same
      · have implies := Option.mem_toList.1 member
        have isImplier : isExact context.base context.today identity op = true := by
          apply exact
          simp [resolves, same, Option.mem_def.1 implies]
        exact holdsValue_of_cmp externals (same ▸ resolves) implies isImplier matched
      · contradiction
    · contradiction

theorem holdsValue_of_conjunctsOfAll {context : MetaFilterContext} {identity : FieldIdentity} :
    (children : List Filter) → everyMatches externals context children = true →
      (∀ op ∈ impliersOfAll context.base context.today identity children,
        isExact context.base context.today identity op = true) →
      ∀ each ∈ conjunctsOfAll context.base context.today identity children,
        ∃ literal ∈ each.values, holdsValue context identity literal = true
  | [], _, _ => nofun
  | child :: children, matched, exact => by
    rw [everyMatches, Bool.and_eq_true] at matched
    rw [impliersOfAll, forall_mem_append] at exact
    rw [conjunctsOfAll, forall_mem_append]
    exact ⟨holdsValue_of_conjuncts child matched.1 exact.1,
      holdsValue_of_conjunctsOfAll children matched.2 exact.2⟩

end

end Leaves

/-! ### Intersections -/

variable {implications : List Implication} {context : MetaFilterContext}

variable {value : Json}

section Reported

variable {base : BaseDefinition} {today : NaiveDate} {identity : FieldIdentity}

def Fields.Distinct (fields : Fields) : Prop := (fields.map Prod.fst).Nodup

variable {fields : Fields}

theorem map_fst_change (fields : Fields) (identity : FieldIdentity)
    (update : FieldRequirement → FieldRequirement) :
    (fields.change identity update).map Prod.fst = fields.map Prod.fst := by
  induction fields with
  | nil => rfl
  | cons entry rest ih =>
    unfold Fields.change
    split
    · rfl
    · rw [map_cons, map_cons, ih]

theorem distinct_require (distinct : fields.Distinct) (identity : FieldIdentity)
    (requestKey : String) (scopes : Scopes) (incoming : Option Implication) :
    (fields.require identity requestKey scopes incoming).Distinct := by
  unfold Fields.require
  split
  · rw [Fields.Distinct, map_fst_change]
    exact distinct
  · rename_i absent
    rw [Fields.Distinct, map_append, nodup_append]
    refine ⟨distinct, nodup_singleton _, fun found isFound other isOther => ?_⟩
    rw [map_cons, map_nil, mem_singleton] at isOther
    rintro rfl
    have ⟨entry, member, same⟩ := mem_map.1 isFound
    apply absent
    rw [Fields.has, any_eq_true]
    exact ⟨entry, member, by simp [same, isOther]⟩

mutual

theorem distinct_collectFieldsIn {scopes : Scopes} : (filter : Filter) → (forcing : Bool) →
    (fields : Fields) → fields.Distinct →
      (collectFieldsIn base today scopes forcing filter fields).Distinct
  | .all children, forcing, fields, distinct => by
    rw [collectFieldsIn]
    exact distinct_collectEach children forcing fields distinct
  | .any children, forcing, fields, distinct => by
    have collected : (collectEach base today scopes false children fields).Distinct :=
      distinct_collectEach children false fields distinct
    rw [collectFieldsIn]
    split
    · rw [Fields.narrow, Fields.Distinct, map_fst_change]
      exact collected
    · exact collected
  | .not child, forcing, fields, distinct => by
    rw [collectFieldsIn]
    exact distinct_collectFieldsIn child false fields distinct
  | .cmp field op value, forcing, fields, distinct => by
    rw [collectFieldsIn]
    split
    · exact distinct
    · exact distinct_require distinct _ _ _ _

theorem distinct_collectEach {scopes : Scopes} : (children : List Filter) → (forcing : Bool) →
    (fields : Fields) → fields.Distinct →
      (collectEach base today scopes forcing children fields).Distinct
  | [], _, _, distinct => distinct
  | child :: children, forcing, fields, distinct => by
    rw [collectEach]
    exact distinct_collectEach children forcing _
      (distinct_collectFieldsIn child forcing fields distinct)

end

end Reported

end Clepsydra.Bases
