import Clepsydra.Bases.Matching

/-!
Owns: what can be said of a filter before a member is created: `filter_possibility`.

Proves: what it says always or never to hold does or does not.
-/

namespace Clepsydra.Bases

open Vault Option

/-! ### Three values -/

inductive Possibility where
  | alwaysTrue
  | maybe
  | alwaysFalse
deriving DecidableEq

namespace Possibility

def both : Possibility → Possibility → Possibility
  | .alwaysFalse, _ | _, .alwaysFalse => .alwaysFalse
  | .alwaysTrue, .alwaysTrue => .alwaysTrue
  | _, _ => .maybe

def either : Possibility → Possibility → Possibility
  | .alwaysTrue, _ | _, .alwaysTrue => .alwaysTrue
  | .alwaysFalse, .alwaysFalse => .alwaysFalse
  | _, _ => .maybe

/-- `all`. -/
def all (values : List Possibility) : Possibility := values.foldl both .alwaysTrue

/-- `any`. -/
def any (values : List Possibility) : Possibility := values.foldl either .alwaysFalse

def negate : Possibility → Possibility
  | .alwaysTrue => .alwaysFalse
  | .maybe => .maybe
  | .alwaysFalse => .alwaysTrue

def ofKnown : Option Bool → Possibility
  | some true => .alwaysTrue
  | some false => .alwaysFalse
  | none => .maybe

def Agrees : Possibility → Bool → Prop
  | .alwaysTrue, fact => fact = true
  | .maybe, _ => True
  | .alwaysFalse, fact => fact = false

end Possibility

/-! ### The analysis -/

section Analysis

variable (externals : Externals) (base : BaseDefinition)

def ResolvedField.supportsLinksTo : ResolvedField → Bool
  | .prop _ type => type.supportsLinksTo
  | .sys _ => false

/-- What is fixed about a system field of a blank member. -/
def fixedSystemMatches (sys : SysField) (op : Op) (value : Json) (today : NaiveDate) :
    Option Bool :=
  match sys with
  | .wordCount =>
    some (scalarMatches externals (some (.number (.finite 0))) .number op value false today)
  | .journalDate => some (scalarMatches externals none .date op value false today)
  | .createdAt | .updatedAt =>
    if op.isRelativeDate then
      some (scalarMatches externals (some (.text today.format)) (systemMatchType sys op) op value
        false today)
    else none
  | _ => none

/-- The operators a blank member's property does not have, and a property the base does not know. -/
def fixedPropertyMatches (key : String) (type : PropertyType) (op : Op) (value : Json)
    (today : NaiveDate) : Option Bool :=
  if (op = .contains ∨ op = .notContains) ∧ !type.supportsContains then some false
  else if op.isRelativeDate && !type.supportsRelativeDate then some false
  else if op.isAffix && !type.supportsAffix then some false
  else if (base.property key).isNone then
    some (propertyMatches externals none type op value none today)
  else none

/-- `fixed_candidate_comparison_matches`. -/
def fixedCandidateComparisonMatches (field : String) (op : Op) (value : Json)
    (today : NaiveDate) : Option Bool :=
  match resolveField field (.forBase base today) with
  | .error _ => none
  | .ok resolved =>
    if op = .linksTo ∧ (!resolved.supportsLinksTo ∨ value.asString.isNone) then some false
    else
      match resolved with
      | .sys sys => fixedSystemMatches externals sys op value today
      | .prop key type => fixedPropertyMatches externals base key type op value today

def readsWordCount : Op → Bool
  | .eq | .ne | .lt | .lte | .gt | .gte | .isIn => true
  | _ => false

/-- `comparison_possibility`. -/
def comparisonPossibility (field : String) (op : Op) (value : Json) (today : NaiveDate) :
    Possibility :=
  if (resolveField field (.forBase base today)).toOption = some (.sys .wordCount)
      ∧ readsWordCount op = true then .maybe
  else .ofKnown (fixedCandidateComparisonMatches externals base field op value today)

mutual

/-- `filter_possibility`. -/
def filterPossibility (today : NaiveDate) : Filter → Possibility
  | .all children => .all (filterPossibilities today children)
  | .any children => .any (filterPossibilities today children)
  | .not child => (filterPossibility today child).negate
  | .cmp field op value => comparisonPossibility externals base field op value today

def filterPossibilities (today : NaiveDate) : List Filter → List Possibility
  | [] => []
  | child :: children => filterPossibility today child :: filterPossibilities today children

end

end Analysis

/-- A member that can be created through a base: no journal date, and written today. -/
structure Creatable (context : MetaFilterContext) : Prop where
  extra : ∀ key, context.base.property key = none → context.page.extra.value key = none
  journalDate : context.journalDate = none
  wordCount : ∃ count, context.wordCount = some count
  createdAt : ∃ instant, context.page.createdAt = some instant ∧ instant.date = context.today
  updatedAt : ∃ instant, context.page.updatedAt = some instant ∧ instant.date = context.today

/-! ### The connectives -/

namespace Possibility

variable {fact : Bool}

theorem agrees_both {left right : Possibility} {other : Bool} (agrees : left.Agrees fact)
    (agreesOther : right.Agrees other) : (left.both right).Agrees (fact && other) := by
  cases left <;> cases right <;> simp_all [Agrees, both]

theorem agrees_either {left right : Possibility} {other : Bool} (agrees : left.Agrees fact)
    (agreesOther : right.Agrees other) : (left.either right).Agrees (fact || other) := by
  cases left <;> cases right <;> simp_all [Agrees, either]

theorem agrees_negate {value : Possibility} (agrees : value.Agrees fact) :
    value.negate.Agrees (!fact) := by
  cases value <;> simp_all [Agrees, negate]

theorem agrees_ofKnown {known : Option Bool} (correct : ∀ value, known = some value → fact = value) :
    (ofKnown known).Agrees fact := by
  cases known with
  | none => trivial
  | some value =>
    cases value with
    | true => exact correct true rfl
    | false => exact correct false rfl

end Possibility

/-! ### What is fixed -/

section Fixed

variable (externals : Externals)

theorem firstBytes_append {start : List Char} (rest : List Char) {count : Nat}
    (enough : count ≤ start.length) : firstBytes count (start ++ rest) = firstBytes count start := by
  induction start generalizing count with
  | nil =>
    have none : count = 0 := by simpa using enough
    subst none
    simp [firstBytes]
  | cons character start ih =>
    cases count with
    | zero => simp [firstBytes]
    | succ count =>
      have positive := character.utf8Size_pos
      rw [List.length_cons] at enough
      simp only [List.cons_append, firstBytes]
      rw [ih (by omega)]

theorem length_paddedDigits (width number : Nat) : (paddedDigits width number).length = width := by
  induction width generalizing number with
  | zero => rfl
  | succ width ih => simp [paddedDigits, ih]

theorem length_formatYear (year : Int) : 4 ≤ (formatYear year).length := by
  unfold formatYear
  by_cases plain : 0 ≤ year ∧ year ≤ 9999
  · rw [if_pos plain, length_paddedDigits]
  · rw [if_neg plain, List.length_cons]
    by_cases short : year.natAbs ≤ 9999
    · rw [if_pos short, length_paddedDigits]
      omega
    · rw [if_neg short]
      have long : ¬ (Nat.toDigits 10 year.natAbs).length ≤ 2 := by
        rw [Nat.length_toDigits_le_iff (by omega) (by omega)]
        omega
      omega

theorem length_format (date : NaiveDate) : 10 ≤ date.format.toList.length := by
  have year := length_formatYear date.year
  simp [NaiveDate.format, length_paddedDigits]
  omega

theorem dateFace_toRfc3339 (instant : Instant) :
    dateFace externals instant.toRfc3339 = dateFace externals instant.date.format := by
  unfold dateFace Instant.toRfc3339
  rw [String.toList_append, firstBytes_append _ (length_format _)]

variable {op : Op}

theorem scalarMatches_number (count other : Double) (value : Json) (today : NaiveDate)
    (unread : readsWordCount op = false) :
    scalarMatches externals (some (.number count)) .number op value false today =
      scalarMatches externals (some (.number other)) .number op value false today := by
  cases op <;> first | contradiction | rfl

theorem scalarMatches_relative (current : Option Comparable) (type : PropertyType) (value : Json)
    (exact : Bool) (today : NaiveDate) (relative : op.isRelativeDate = true) :
    scalarMatches externals current type op value exact today = (type.supportsRelativeDate &&
        match relativeDateWindow op today with
        | none => false
        | some window =>
          (current.bind fun value => dateFace externals (comparableSqlText externals value)).any
            fun day => !day.before window.1 && day.before window.2) := by
  cases op <;> first | contradiction | rfl

variable {type : PropertyType}

theorem scalarMatches_affix (current : Option Comparable) (value : Json) (exact : Bool)
    (today : NaiveDate) (affix : op.isAffix = true) (unsupported : type.supportsAffix = false) :
    scalarMatches externals current type op value exact today = false := by
  cases op <;> try contradiction
  · cases current with
    | none => rfl
    | some current =>
      show (type.supportsAffix && _) = false
      rw [unsupported, Bool.false_and]
  · cases current with
    | none => rfl
    | some current =>
      show (type.supportsAffix && _) = false
      rw [unsupported, Bool.false_and]

theorem scalarMatches_linksTo (current : Option Comparable) (type : PropertyType) (value : Json)
    (exact : Bool) (today : NaiveDate) :
    scalarMatches externals current type .linksTo value exact today = false := by
  cases current <;> rfl

variable {context : MetaFilterContext} {value : Json}

theorem cmp_linksTo {field : String} {resolved : ResolvedField}
    (resolves : resolveField field (.forBase context.base context.today) = .ok resolved)
    (unsupported : resolved.supportsLinksTo = false ∨ value.asString = none) :
    cmpMatchesMeta externals field .linksTo value context = false := by
  unfold cmpMatchesMeta
  rw [resolves]
  cases resolved with
  | sys sys =>
    cases sys with
    | tags | aliases => rfl
    | _ => exact scalarMatches_linksTo externals _ _ _ _ _
  | prop key type =>
    show linksToMatches externals type value _ = false
    obtain unsupported | noText := unsupported
    · rw [linksToMatches, show type.supportsLinksTo = false from unsupported, Bool.false_and]
    · rw [linksToMatches, noText, Bool.and_false]

theorem cmp_system (creatable : Creatable context) {sys : SysField} {known : Bool}
    (unread : ¬ (sys = .wordCount ∧ readsWordCount op = true))
    (fixed : fixedSystemMatches externals sys op value context.today = some known) :
    scalarMatches externals (systemScalar sys context) (systemMatchType sys op) op value false
      context.today = known := by
  -- a moment of today has the face that the date itself has
  have ofToday : ∀ {instant : Instant}, instant.date = context.today → op.isRelativeDate = true →
      scalarMatches externals (some (.text instant.toRfc3339)) (systemMatchType sys op) op value
        false context.today =
      scalarMatches externals (some (.text context.today.format)) (systemMatchType sys op) op value
        false context.today := by
    intro instant isToday relative
    have face : dateFace externals instant.toRfc3339 = dateFace externals context.today.format := by
      rw [dateFace_toRfc3339, isToday]
    rw [scalarMatches_relative externals _ _ _ _ _ relative,
      scalarMatches_relative externals _ _ _ _ _ relative]
    simp only [bind_some, comparableSqlText, face]
  cases sys with
  | wordCount =>
    have ⟨count, counted⟩ := creatable.wordCount
    have plain : readsWordCount op = false := by simpa using unread
    have typed : systemMatchType .wordCount op = .number := by
      simp [systemMatchType, SysField.supportsRelativeDate, SysField.propertyType]
    simp only [systemScalar, counted, typed]
    rw [← some.inj fixed]
    exact scalarMatches_number externals _ _ value context.today plain
  | journalDate =>
    have typed : systemMatchType .journalDate op = .date := by
      unfold systemMatchType
      split <;> rfl
    simp only [systemScalar, creatable.journalDate, map_none, typed]
    exact some.inj fixed
  | createdAt =>
    have ⟨instant, written, isToday⟩ := creatable.createdAt
    simp only [fixedSystemMatches] at fixed
    split_ifs at fixed with relative
    simp only [systemScalar, written, map_some]
    rw [ofToday isToday relative]
    exact some.inj fixed
  | updatedAt =>
    have ⟨instant, written, isToday⟩ := creatable.updatedAt
    simp only [fixedSystemMatches] at fixed
    split_ifs at fixed with relative
    simp only [systemScalar, written, map_some]
    rw [ofToday isToday relative]
    exact some.inj fixed
  | _ => contradiction

theorem propertyMatches_of_unsupported {today : NaiveDate}
    (positive : op.isRelativeDate = true ∨ op.isAffix = true)
    (never : ∀ current, scalarMatches externals current type op value type.isCategorical today =
      false) (current : Option TomlValue) (linkTargets : Option (List CandidateLinkTarget)) :
    propertyMatches externals current type op value linkTargets today = false := by
  have item : ∀ item, propertyScalarMatches externals item type op value today = false := by
    intro item
    rw [propertyScalarMatches, never, Bool.and_false]
  have present : ∀ current,
      presentPropertyMatches externals current type op value today = false := by
    intro current
    cases current with
    | array items => cases op <;> simp_all [presentPropertyMatches, Op.isRelativeDate, Op.isAffix]
    | _ => exact item _
  unfold propertyMatches
  cases current.filter fun current => !tomlValueIsEmpty current with
  | none => cases op <;> simp_all [absentMatches, Op.isRelativeDate, Op.isAffix]
  | some current => cases op <;> simp_all [Op.isRelativeDate, Op.isAffix]

theorem propertyType_of_resolve {field key : String} {ctx : QueryContext}
    (resolves : resolveField field ctx = .ok (.prop key type)) : type = ctx.propertyType key := by
  unfold resolveField at resolves
  split_ifs at resolves
  split at resolves
  · split at resolves <;> cases resolves
  · split at resolves
    · cases resolves
      rfl
    · split at resolves
      · cases resolves
      · cases resolves
        rfl

theorem propertyType_of_unknown {base : BaseDefinition} {key : String} {today : NaiveDate}
    (unknown : base.property key = none) :
    (QueryContext.forBase base today).propertyType key = .text := by
  rw [BaseDefinition.property, or_eq_none_iff] at unknown
  simp [QueryContext.propertyType, QueryContext.forBase, unknown.1, unknown.2]

theorem cmp_property (creatable : Creatable context) {key : String} {known : Bool}
    (linkTargets : Option (List CandidateLinkTarget))
    (typed : type = (QueryContext.forBase context.base context.today).propertyType key)
    (fixed : fixedPropertyMatches externals context.base key type op value context.today =
      some known) :
    propertyMatches externals (context.page.extra.value key) type op value linkTargets
      context.today = known := by
  unfold fixedPropertyMatches at fixed
  split_ifs at fixed with noContains noRelative noAffix unknown
  · rw [← some.inj fixed]
    obtain ⟨rfl | rfl, unsupported⟩ := noContains
    · simp [propertyMatches, unsupported]
    · simp [propertyMatches, unsupported]
  · rw [← some.inj fixed]
    rw [Bool.and_eq_true, Bool.not_eq_true'] at noRelative
    apply propertyMatches_of_unsupported externals (Or.inl noRelative.1)
    intro current
    rw [scalarMatches_relative externals _ _ _ _ _ noRelative.1, noRelative.2, Bool.false_and]
  · rw [← some.inj fixed]
    rw [Bool.and_eq_true, Bool.not_eq_true'] at noAffix
    apply propertyMatches_of_unsupported externals (Or.inr noAffix.1)
    intro current
    exact scalarMatches_affix externals _ _ _ _ noAffix.1 noAffix.2
  · rw [isNone_iff_eq_none] at unknown
    rw [propertyType_of_unknown unknown] at typed
    rw [← some.inj fixed, creatable.extra key unknown, typed]
    -- a text links to nothing, so the targets are not read
    cases op <;> rfl

theorem agrees_comparison (creatable : Creatable context) (field : String) (op : Op) (value : Json) :
    (comparisonPossibility externals context.base field op value context.today).Agrees
      (cmpMatchesMeta externals field op value context) := by
  unfold comparisonPossibility
  split_ifs with words
  · trivial
  apply Possibility.agrees_ofKnown
  intro known fixed
  unfold fixedCandidateComparisonMatches at fixed
  split at fixed
  · contradiction
  rename_i resolved resolves
  split_ifs at fixed with links
  · obtain ⟨rfl, unsupported⟩ := links
    rw [← some.inj fixed]
    apply cmp_linksTo externals resolves
    simpa using unsupported
  · unfold cmpMatchesMeta
    rw [resolves]
    cases resolved with
    | sys sys =>
      have unread : ¬ (sys = .wordCount ∧ readsWordCount op = true) := by
        rw [resolves] at words
        simpa [Except.toOption] using words
      have same := cmp_system externals creatable unread fixed
      cases sys with
      | tags | aliases => contradiction
      | _ => exact same
    | prop key type =>
      exact cmp_property externals creatable _ (propertyType_of_resolve resolves) fixed

mutual

theorem agrees_filter {context : MetaFilterContext} (creatable : Creatable context) :
    (filter : Filter) → (filterPossibility externals context.base context.today filter).Agrees
        (filterMatchesMeta externals context filter)
  | .all children => agrees_every creatable children .alwaysTrue true rfl
  | .any children => by
    have agrees := agrees_some creatable children .alwaysFalse false rfl
    rwa [Bool.false_or] at agrees
  | .not child => Possibility.agrees_negate (agrees_filter creatable child)
  | .cmp field op value => agrees_comparison externals creatable field op value

theorem agrees_every {context : MetaFilterContext} (creatable : Creatable context) :
    (children : List Filter) → (acc : Possibility) → (fact : Bool) → acc.Agrees fact →
      ((filterPossibilities externals context.base context.today children).foldl
        Possibility.both acc).Agrees (fact && everyMatches externals context children)
  | [], _, _, agrees => by
    rw [everyMatches, Bool.and_true]
    exact agrees
  | child :: children, _, _, agrees => by
    rw [everyMatches, ← Bool.and_assoc]
    exact agrees_every creatable children _ _
      (Possibility.agrees_both agrees (agrees_filter creatable child))

theorem agrees_some {context : MetaFilterContext} (creatable : Creatable context) :
    (children : List Filter) → (acc : Possibility) → (fact : Bool) → acc.Agrees fact →
      ((filterPossibilities externals context.base context.today children).foldl
        Possibility.either acc).Agrees (fact || someMatches externals context children)
  | [], _, _, agrees => by
    rw [someMatches, Bool.or_false]
    exact agrees
  | child :: children, _, _, agrees => by
    rw [someMatches, ← Bool.or_assoc]
    exact agrees_some creatable children _ _
      (Possibility.agrees_either agrees (agrees_filter creatable child))

end

/-- The analysis of a filter is sound for the members that can be created through the base today. -/
theorem filterPossibility_sound (base : BaseDefinition) (filter : Filter) (today : NaiveDate)
    (context : MetaFilterContext) (ofBase : context.base = base) (onDate : context.today = today)
    (creatable : Creatable context) :
    (filterPossibility externals base today filter = .alwaysFalse →
      filterMatchesMeta externals context filter = false) ∧
    (filterPossibility externals base today filter = .alwaysTrue →
      filterMatchesMeta externals context filter = true) := by
  have agrees := agrees_filter externals creatable filter
  rw [ofBase, onDate] at agrees
  constructor
  · intro never
    rw [never] at agrees
    exact agrees
  · intro always
    rw [always] at agrees
    exact agrees

end Fixed

/-! ### A member written on 28 August 2026 -/

def sampleToday : NaiveDate := ⟨2026, 8, 28, by decide, by decide, by decide, by decide⟩

def sampleExternals : Externals where
  unicode := ⟨id, id⟩
  parseYmd := fun text => if text = "2026-08-28" then some sampleToday else none
  showDouble := fun _ => "0"

def sampleContext : MetaFilterContext where
  base := ⟨[("status", ⟨.select, ["open", "done"]⟩)]⟩
  page :=
    { id := .repeated 0
      title := some "Draft"
      tags := []
      aliases := []
      kind := none
      project := none
      createdAt := some ⟨sampleToday, 3600, 0⟩
      updatedAt := some ⟨sampleToday, 3600, 500⟩
      encryption := none
      readonly := none
      extra := Clepsydra.Library.Table.empty }
  path := "notes/draft.md"
  wordCount := some 3
  journalDate := none
  linkTargets := none
  today := sampleToday

/-- It is always written today, and never has a journal date. -/
theorem filterPossibility_sound_sample :
    filterMatchesMeta sampleExternals sampleContext (.cmp "created_at" .isToday .null) = true ∧
    filterMatchesMeta sampleExternals sampleContext
      (.all [.cmp "status" .isEmpty .null, .cmp "journal_date" .notEmpty .null]) = false := by
  have creatable : Creatable sampleContext :=
    ⟨fun _ _ => rfl, rfl, ⟨3, rfl⟩, ⟨_, rfl, rfl⟩, ⟨_, rfl, rfl⟩⟩
  constructor
  · exact (filterPossibility_sound sampleExternals sampleContext.base _ sampleToday sampleContext
      rfl rfl creatable).2 (by decide +kernel)
  · exact (filterPossibility_sound sampleExternals sampleContext.base _ sampleToday sampleContext
      rfl rfl creatable).1 (by decide)

end Clepsydra.Bases
