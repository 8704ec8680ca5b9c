import Clepsydra.Bases.Possibility
import Clepsydra.Library.Fallible

/-!
Owns: what a base reports about members created through it, `composed_member_capability`.

Proves: the implication of a field is the fold of what the predicates in conjunctive position force;
exactly when it is their intersection.
-/

namespace Clepsydra.Bases

open Library.Fallible Vault List

/-! ### Literals -/

mutual

/-- `serde_json::Value` compared with `==`. -/
def Json.equal : Json → Json → Bool
  | .null, .null => true
  | .bool left, .bool right => left == right
  | .number left, .number right => left == right
  | .string left, .string right => left == right
  | .array left, .array right => Json.equalItems left right
  | .object left, .object right => Json.equalEntries left right
  | _, _ => false

def Json.equalItems : List Json → List Json → Bool
  | [], [] => true
  | left :: lefts, right :: rights => left.equal right && Json.equalItems lefts rights
  | _, _ => false

def Json.equalEntries : List (String × Json) → List (String × Json) → Bool
  | [], [] => true
  | (key, left) :: lefts, (other, right) :: rights =>
    key == other && left.equal right && Json.equalEntries lefts rights
  | _, _ => false

end

mutual

theorem Json.equal_iff : (left right : Json) → (left.equal right = true ↔ left = right)
  | .null, right => by cases right <;> simp [Json.equal]
  | .bool left, right => by cases right <;> simp [Json.equal]
  | .number left, right => by cases right <;> simp [Json.equal]
  | .string left, right => by cases right <;> simp [Json.equal]
  | .array left, right => by
    cases right with
    | array right => simp [Json.equal, Json.equalItems_iff left right]
    | _ => simp [Json.equal]
  | .object left, right => by
    cases right with
    | object right => simp [Json.equal, Json.equalEntries_iff left right]
    | _ => simp [Json.equal]

theorem Json.equalItems_iff : (left right : List Json) →
    (Json.equalItems left right = true ↔ left = right)
  | [], right => by cases right <;> simp [Json.equalItems]
  | left :: lefts, right => by
    cases right with
    | nil => simp [Json.equalItems]
    | cons right rights =>
      simp [Json.equalItems, Json.equal_iff left right, Json.equalItems_iff lefts rights]

theorem Json.equalEntries_iff : (left right : List (String × Json)) →
    (Json.equalEntries left right = true ↔ left = right)
  | [], right => by cases right <;> simp [Json.equalEntries]
  | (key, left) :: lefts, right => by
    cases right with
    | nil => simp [Json.equalEntries]
    | cons right rights =>
      have ⟨other, right⟩ := right
      simp [Json.equalEntries, Json.equal_iff left right, Json.equalEntries_iff lefts rights,
        Prod.ext_iff]

end

instance : DecidableEq Json := fun left right => decidable_of_iff _ (Json.equal_iff left right)

/-! ### Implications -/

/-- `BaseMemberImplication`. -/
inductive Implication where
  | fixed (value : Json)
  | choice (values : List Json)
deriving DecidableEq

def Implication.values : Implication → List Json
  | .fixed value => [value]
  | .choice values => values

/-- `implication_of` a comparison. -/
def implicationOf (op : Op) (value : Json) : Option Implication :=
  if value.isNull then none
  else
    match op with
    | .eq | .contains => some (.fixed value)
    | .isIn =>
      match value.asArray with
      | none | some [] => none
      | some values => some (.choice values)
    | _ => none

/-- `merge_implications`. -/
def mergeImplications : Option Implication → Option Implication → Option Implication
  | none, other => other
  | some existing, none => some existing
  | some (.fixed left), some (.fixed right) =>
    if left = right then some (.fixed left) else none
  | some (.fixed value), some (.choice values) | some (.choice values), some (.fixed value) =>
    if value ∈ values then some (.fixed value) else none
  | some (.choice left), some (.choice right) =>
    match left.filter fun value => value ∈ right with
    | [] => none
    | [value] => some (.fixed value)
    | both => some (.choice both)

/-! ### Fields -/

inductive FieldIdentity where
  | system (field : SysField)
  | property (key : String)
deriving DecidableEq

/-- `BaseMemberFieldRequirement`. -/
structure FieldRequirement where
  field : String
  membership : Bool
  view : Bool
  embed : Bool
  implied : Option Implication
deriving DecidableEq

structure Scopes where
  membership : Bool
  view : Bool
  embed : Bool

abbrev Fields := List (FieldIdentity × FieldRequirement)

namespace Fields

def change (identity : FieldIdentity) (update : FieldRequirement → FieldRequirement) :
    Fields → Fields
  | [] => []
  | (found, requirement) :: rest =>
    if found = identity then (found, update requirement) :: rest
    else (found, requirement) :: Fields.change identity update rest

def has (fields : Fields) (identity : FieldIdentity) : Bool := fields.any (·.1 = identity)

def narrow (identity : FieldIdentity) (implied : Option Implication) (fields : Fields) : Fields :=
  fields.change identity fun requirement =>
    { requirement with implied := mergeImplications requirement.implied implied }

def require (identity : FieldIdentity) (requestKey : String) (scopes : Scopes)
    (implied : Option Implication) (fields : Fields) : Fields :=
  if fields.has identity then
    fields.change identity fun existing =>
      { existing with
        membership := existing.membership || scopes.membership
        view := existing.view || scopes.view
        embed := existing.embed || scopes.embed
        implied := mergeImplications existing.implied implied }
  else
    fields ++ [(identity, ⟨requestKey, scopes.membership, scopes.view, scopes.embed, implied⟩)]

def implied (fields : Fields) (identity : FieldIdentity) : Option Implication :=
  (fields.find? (·.1 = identity)).bind (·.2.implied)

end Fields

section Walk

variable (base : BaseDefinition) (today : NaiveDate)

/-- `resolved_requirement`: the field and the key it is asked for under. -/
def resolvedRequirement (field : String) : Option (FieldIdentity × String) :=
  match resolveField field (.forBase base today) with
  | .error _ => none
  | .ok (.sys sys) => some (.system sys, sys.asStr)
  | .ok (.prop key _) =>
    match resolveField key (.forBase base today) with
    | .ok (.sys _) => some (.property key, "prop." ++ key)
    | _ => some (.property key, key)

def alternative : Filter → Option (FieldIdentity × Json)
  | .cmp field op value =>
    if op = .eq ∨ op = .contains then
      match resolvedRequirement base today field with
      | some (identity, _) => if value.isNull then none else some (identity, value)
      | none => none
    else none
  | _ => none

/-- `single_field_alternatives`. -/
def singleFieldAlternatives : List Filter → Option (FieldIdentity × List Json)
  | [] => none
  | child :: children =>
    match alternative base today child with
    | none => none
    | some (identity, value) =>
      (children.mapM fun other =>
        match alternative base today other with
        | some (found, value) => if found = identity then some value else none
        | none => none).map fun values => (identity, value :: values)

mutual

/-- `collect_fields_in`. -/
def collectFieldsIn (scopes : Scopes) (forcing : Bool) : Filter → Fields → Fields
  | .any children, fields =>
    let collected := collectEach scopes false children fields
    match if forcing then singleFieldAlternatives base today children else none with
    | some (identity, values) => collected.narrow identity (some (.choice values))
    | none => collected
  | .all children, fields => collectEach scopes forcing children fields
  | .not child, fields => collectFieldsIn scopes false child fields
  | .cmp field op value, fields =>
    match resolvedRequirement base today field with
    | none => fields
    | some (identity, requestKey) =>
      fields.require identity requestKey scopes (if forcing then implicationOf op value else none)

def collectEach (scopes : Scopes) (forcing : Bool) : List Filter → Fields → Fields
  | [], fields => fields
  | child :: children, fields =>
    collectEach scopes forcing children (collectFieldsIn scopes forcing child fields)

end

/-- `BaseMemberScope`. -/
inductive MemberScope where
  | membership
  | view
  | field
  | embed

/-- `BaseMemberDiagnostic`. -/
structure MemberDiagnostic where
  scope : MemberScope
  field : Option String
  filterPath : Option String
  message : String

/-- `bare_field`. -/
def bareField (field : String) : String :=
  ((stripStart "sys." field).or (stripStart "prop." field)).getD field

variable (externals : Externals)

mutual

/-- `collect_contributors`: the comparisons that make a filter what it always is. -/
def collectContributors (scope : MemberScope) :
    Filter → String → Possibility → List MemberDiagnostic
  | .all children, path, desired => contributorsOf scope children (path ++ ".all[") 0 desired
  | .any children, path, desired => contributorsOf scope children (path ++ ".any[") 0 desired
  | .not child, path, desired =>
    if desired = .maybe then []
    else collectContributors scope child (path ++ ".not") desired.negate
  | .cmp field op value, path, desired =>
    if filterPossibility externals base today (.cmp field op value) = desired then
      [{ scope
         field := some (((resolvedRequirement base today field).map Prod.snd).getD
           (bareField field))
         filterPath := some path
         message := "fixed candidate state prevents member creation" }]
    else []

def contributorsOf (scope : MemberScope) :
    List Filter → String → Nat → Possibility → List MemberDiagnostic
  | [], _, _, _ => []
  | child :: children, start, index, desired =>
    (if filterPossibility externals base today child = desired then
      collectContributors scope child (start ++ toString index ++ "]") desired
    else []) ++ contributorsOf scope children start (index + 1) desired

end

end Walk

/-! ### What is implied for a field -/

@[simp] theorem mergeImplications_none (existing : Option Implication) :
    mergeImplications existing none = existing := by
  cases existing <;> rfl

namespace Fields

variable {fields : Fields} {identity : FieldIdentity}

theorem implied_change {update : FieldRequirement → FieldRequirement}
    {incoming : Option Implication}
    (merges : ∀ requirement, (update requirement).implied =
      mergeImplications requirement.implied incoming) (present : fields.has identity = true)
    (other : FieldIdentity) :
    (fields.change identity update).implied other =
      if other = identity then mergeImplications (fields.implied identity) incoming
      else fields.implied other := by
  induction fields with
  | nil => simp [has] at present
  | cons entry rest ih =>
    have ⟨found, requirement⟩ := entry
    by_cases here : found = identity
    · subst here
      by_cases same : other = found
      · subst same
        simp [change, implied, merges]
      · have different : found ≠ other := fun equal => same equal.symm
        simp [change, implied, same, different]
    · have later : has rest identity = true := by simpa [has, here] using present
      by_cases atOther : found = other
      · subst atOther
        simp [change, implied, here]
      · have step := ih later
        simp only [implied] at step ⊢
        simpa [change, here, atOther] using step

theorem implied_narrow (present : fields.has identity = true) (incoming : Option Implication)
    (other : FieldIdentity) :
    (fields.narrow identity incoming).implied other =
      if other = identity then mergeImplications (fields.implied identity) incoming
      else fields.implied other :=
  implied_change (fun _ => rfl) present other

theorem implied_of_not_has (absent : fields.has identity = false) :
    fields.implied identity = none := by
  have missing : fields.find? (fun entry => entry.1 = identity) = none := by
    rw [find?_eq_none]
    simpa [has] using absent
  rw [implied, missing]
  rfl

theorem implied_require (fields : Fields) (identity other : FieldIdentity) (requestKey : String)
    (scopes : Scopes) (incoming : Option Implication) :
    (fields.require identity requestKey scopes incoming).implied other =
      if other = identity then mergeImplications (fields.implied identity) incoming
      else fields.implied other := by
  unfold require
  by_cases present : fields.has identity = true
  · rw [if_pos present]
    exact implied_change (fun _ => rfl) present other
  · rw [if_neg present]
    have absent : fields.has identity = false := by simpa using present
    by_cases same : other = identity
    · subst same
      have missing : fields.find? (fun entry => entry.1 = other) = none := by
        rw [find?_eq_none]
        simpa [has] using absent
      rw [if_pos rfl, implied_of_not_has absent]
      simp [implied, find?_append, missing, mergeImplications]
    · have different : identity ≠ other := fun equal => same equal.symm
      simp [implied, find?_append, same, different]

theorem has_change (fields : Fields) (identity other : FieldIdentity)
    (update : FieldRequirement → FieldRequirement) :
    (fields.change identity update).has other = fields.has other := by
  induction fields with
  | nil => rfl
  | cons entry rest ih =>
    unfold change
    split
    · rfl
    · show (_ || has (change identity update rest) other) = (_ || has rest other)
      rw [ih]

theorem has_require (fields : Fields) (identity other : FieldIdentity) (requestKey : String)
    (scopes : Scopes) (incoming : Option Implication) :
    (fields.require identity requestKey scopes incoming).has other =
      (fields.has other || decide (identity = other)) := by
  unfold require
  by_cases present : fields.has identity = true
  · rw [if_pos present, has_change]
    by_cases same : identity = other
    · rw [← same, present, Bool.true_or]
    · simp [same]
  · rw [if_neg present]
    simp [has]

end Fields

section Collected

variable (base : BaseDefinition) (today : NaiveDate)

mutual

def conjuncts (identity : FieldIdentity) : Filter → List Implication
  | .all children => conjunctsOfAll identity children
  | .any children =>
    match singleFieldAlternatives base today children with
    | some (found, values) => if found = identity then [.choice values] else []
    | none => []
  | .not _ => []
  | .cmp field op value =>
    match resolvedRequirement base today field with
    | some (found, _) => if found = identity then (implicationOf op value).toList else []
    | none => []

def conjunctsOfAll (identity : FieldIdentity) : List Filter → List Implication
  | [] => []
  | child :: children => conjuncts identity child ++ conjunctsOfAll identity children

end

def narrowed (existing : Option Implication) (implications : List Implication) :
    Option Implication :=
  implications.foldl (fun current incoming => mergeImplications current (some incoming)) existing

variable {base today}

mutual

theorem has_collectFieldsIn {scopes : Scopes} {identity : FieldIdentity} : (filter : Filter) →
    (forcing : Bool) → (fields : Fields) → fields.has identity = true →
      (collectFieldsIn base today scopes forcing filter fields).has identity = true
  | .all children, forcing, fields, present => has_collectEach children forcing fields present
  | .any children, forcing, fields, present => by
    have collected : (collectEach base today scopes false children fields).has identity = true :=
      has_collectEach children false fields present
    simp only [collectFieldsIn]
    split
    · rw [Fields.narrow, Fields.has_change]
      exact collected
    · exact collected
  | .not child, forcing, fields, present => has_collectFieldsIn child false fields present
  | .cmp field op value, forcing, fields, present => by
    simp only [collectFieldsIn]
    split
    · exact present
    · rw [Fields.has_require, present, Bool.true_or]

theorem has_collectEach {scopes : Scopes} {identity : FieldIdentity} : (children : List Filter) →
    (forcing : Bool) → (fields : Fields) → fields.has identity = true →
      (collectEach base today scopes forcing children fields).has identity = true
  | [], _, _, present => present
  | child :: children, forcing, fields, present =>
    has_collectEach children forcing _ (has_collectFieldsIn child forcing fields present)

end

variable {identity : FieldIdentity}

theorem alternative_eq_some {filter : Filter} {value : Json}
    (found : alternative base today filter = some (identity, value)) :
    ∃ field op requestKey, filter = .cmp field op value ∧ (op = .eq ∨ op = .contains) ∧
      resolvedRequirement base today field = some (identity, requestKey) ∧
      value.isNull = false := by
  cases filter with
  | cmp field op literal =>
    simp only [alternative] at found
    by_cases tests : op = .eq ∨ op = .contains
    · rw [if_pos tests] at found
      cases resolves : resolvedRequirement base today field with
      | none => simp [resolves] at found
      | some requirement =>
        have ⟨named, requestKey⟩ := requirement
        cases isNull : literal.isNull with
        | true => simp [resolves, isNull] at found
        | false =>
          simp only [resolves, isNull, Bool.false_eq_true, if_false, Option.some.injEq,
            Prod.mk.injEq] at found
          obtain ⟨rfl, rfl⟩ := found
          exact ⟨field, op, requestKey, rfl, tests, resolves, isNull⟩
    · rw [if_neg tests] at found
      contradiction
  | _ => contradiction

theorem singleFieldAlternatives_eq_some {children : List Filter} {values : List Json}
    (alternatives : singleFieldAlternatives base today children = some (identity, values)) :
    children ≠ [] ∧
      List.Forall₂ (fun child value => alternative base today child = some (identity, value))
        children values := by
  cases children with
  | nil => contradiction
  | cons child children =>
    refine ⟨cons_ne_nil child children, ?_⟩
    simp only [singleFieldAlternatives] at alternatives
    split at alternatives
    · contradiction
    · rename_i found value first
      obtain ⟨others, mapped, same⟩ := Option.map_eq_some_iff.1 alternatives
      rw [Prod.mk.injEq] at same
      obtain ⟨rfl, rfl⟩ := same
      refine List.Forall₂.cons first ?_
      refine (forall₂_of_mapM_eq_some mapped).imp fun other literal chosen => ?_
      split at chosen
      · rename_i named literal' isAlternative
        split_ifs at chosen with same
        rw [isAlternative, same, Option.some.inj chosen]
      · contradiction

theorem has_of_alternatives {scopes : Scopes} {children : List Filter} {values : List Json}
    (alternatives : singleFieldAlternatives base today children = some (identity, values))
    (fields : Fields) :
    (collectEach base today scopes false children fields).has identity = true := by
  have ⟨nonempty, branches⟩ := singleFieldAlternatives_eq_some alternatives
  cases branches with
  | nil => contradiction
  | cons first _ =>
    obtain ⟨field, op, requestKey, rfl, -, resolves, -⟩ := alternative_eq_some first
    rw [collectEach]
    apply has_collectEach
    unfold collectFieldsIn
    simp only [resolves, Fields.has_require, decide_true, Bool.or_true]

mutual

/-- A walk over a filter narrows what is implied by the predicates in conjunctive position. -/
theorem implied_collectFieldsIn {scopes : Scopes} {identity : FieldIdentity} : (filter : Filter) →
    (forcing : Bool) → (fields : Fields) →
      (collectFieldsIn base today scopes forcing filter fields).implied identity =
        narrowed (fields.implied identity)
          (if forcing then conjuncts base today identity filter else [])
  | .all children, forcing, fields => by
    simp only [collectFieldsIn, conjuncts]
    exact implied_collectEach children forcing fields
  | .any children, forcing, fields => by
    have collected : (collectEach base today scopes false children fields).implied identity =
        fields.implied identity := implied_collectEach children false fields
    simp only [collectFieldsIn, conjuncts]
    cases forcing with
    | false => exact collected
    | true =>
      simp only [if_true]
      cases alternatives : singleFieldAlternatives base today children with
      | none => exact collected
      | some alternative =>
        have ⟨found, values⟩ := alternative
        have present : (collectEach base today scopes false children fields).has found = true :=
          has_of_alternatives alternatives fields
        simp only [Fields.implied_narrow present]
        by_cases same : identity = found
        · rw [if_pos same, if_pos same.symm, ← same, collected]
          rfl
        · rw [if_neg same, if_neg fun equal => same equal.symm, collected]
          rfl
  | .not child, forcing, fields => by
    have walked : (collectFieldsIn base today scopes false child fields).implied identity =
        fields.implied identity := implied_collectFieldsIn child false fields
    simp only [collectFieldsIn, conjuncts, ite_self]
    exact walked
  | .cmp field op value, forcing, fields => by
    simp only [collectFieldsIn, conjuncts]
    cases resolvedRequirement base today field with
    | none =>
      simp only [ite_self]
      rfl
    | some requirement =>
      have ⟨found, requestKey⟩ := requirement
      simp only [Fields.implied_require]
      by_cases same : identity = found
      · rw [if_pos same, if_pos same.symm, ← same]
        cases forcing with
        | false => simp [narrowed]
        | true =>
          cases implicationOf op value with
          | none => simp [narrowed]
          | some implication => rfl
      · have different : found ≠ identity := fun equal => same equal.symm
        rw [if_neg same, if_neg different, ite_self]
        rfl

theorem implied_collectEach {scopes : Scopes} {identity : FieldIdentity} :
    (children : List Filter) → (forcing : Bool) → (fields : Fields) →
      (collectEach base today scopes forcing children fields).implied identity =
        narrowed (fields.implied identity)
          (if forcing then conjunctsOfAll base today identity children else [])
  | [], forcing, fields => by
    simp only [collectEach, conjunctsOfAll, ite_self]
    rfl
  | child :: children, forcing, fields => by
    simp only [collectEach, conjunctsOfAll]
    rw [implied_collectEach children forcing, implied_collectFieldsIn child forcing]
    cases forcing with
    | false => rfl
    | true => simp [narrowed, foldl_append]

end

end Collected

/-! ### Intersections -/

variable {implications : List Implication} {blocks : List (List Implication)}

def Contradictory (implications : List Implication) : Prop :=
  ∀ value, ∃ each ∈ implications, value ∉ each.values

/-- An implication is the intersection of others, if there are any and they agree. -/
def IsIntersection (implications : List Implication) : Option Implication → Prop
  | some implication =>
    implications ≠ [] ∧ implication.values ≠ [] ∧
      ∀ value, value ∈ implication.values ↔ ∀ each ∈ implications, value ∈ each.values
  | none => implications = [] ∨ Contradictory implications

def ContradictsAtEnd (implications : List Implication) : Prop := Contradictory implications ∧
    ∀ before, before <+: implications → before ≠ implications → ¬ Contradictory before

/-- A list contradicts itself only at its end, or falls apart into lists that do. -/
def Narrowable (implications : List Implication) : Prop :=
  (∀ before, before <+: implications → before ≠ implications → ¬ Contradictory before) ∨
  ∃ blocks : List (List Implication), blocks.flatten = implications ∧
    ∀ block ∈ blocks, ContradictsAtEnd block

theorem not_contradictory_nil : ¬ Contradictory [] := by
  intro contradictory
  obtain ⟨each, member, -⟩ := contradictory .null
  contradiction

theorem contradictory_of_subset {part whole : List Implication}
    (contradictory : Contradictory part) (included : ∀ each ∈ part, each ∈ whole) :
    Contradictory whole := by
  intro value
  have ⟨each, member, outside⟩ := contradictory value
  exact ⟨each, included each member, outside⟩

def IsMerged (left right : Implication) : Option Implication → Prop
  | some merged => merged.values ≠ [] ∧
      ∀ value, value ∈ merged.values ↔ value ∈ left.values ∧ value ∈ right.values
  | none => ∀ value, ¬ (value ∈ left.values ∧ value ∈ right.values)

theorem isMerged_mergeImplications (left right : Implication) :
    IsMerged left right (mergeImplications (some left) (some right)) := by
  cases left with
  | fixed left =>
    cases right with
    | fixed right =>
      by_cases same : left = right
      · subst same
        simp [mergeImplications, IsMerged, Implication.values]
      · simp only [mergeImplications, if_neg same, IsMerged, Implication.values, mem_singleton]
        exact fun value both => same (both.1.symm.trans both.2)
    | choice right =>
      by_cases member : left ∈ right
      · simp only [mergeImplications, if_pos member, IsMerged, Implication.values, mem_singleton]
        refine ⟨cons_ne_nil _ _, fun value => ⟨fun same => ⟨same, same ▸ member⟩, And.left⟩⟩
      · simp only [mergeImplications, if_neg member, IsMerged, Implication.values, mem_singleton]
        exact fun value both => member (both.1 ▸ both.2)
  | choice left =>
    cases right with
    | fixed right =>
      by_cases member : right ∈ left
      · simp only [mergeImplications, if_pos member, IsMerged, Implication.values, mem_singleton]
        refine ⟨cons_ne_nil _ _, fun value => ⟨fun same => ⟨same ▸ member, same⟩, And.right⟩⟩
      · simp only [mergeImplications, if_neg member, IsMerged, Implication.values, mem_singleton]
        exact fun value both => member (both.2 ▸ both.1)
    | choice right =>
      have filtered : ∀ value, value ∈ left.filter (fun value => value ∈ right) ↔
          value ∈ left ∧ value ∈ right := by
        intro value
        rw [mem_filter, decide_eq_true_eq]
      simp only [mergeImplications]
      split
      · rename_i none
        rw [none] at filtered
        exact fun value both => not_mem_nil ((filtered value).2 both)
      · rename_i single
        rw [single] at filtered
        exact ⟨cons_ne_nil _ _, filtered⟩
      · rename_i nonempty _
        exact ⟨nonempty, filtered⟩

/-- A list of predicates falls apart into contradictions and a rest, whose intersection is
implied. -/
structure Leaves (implications : List Implication) (blocks : List (List Implication))
    (rest : List Implication) (result : Option Implication) : Prop where
  parts : implications = blocks.flatten ++ rest
  complete : ∀ block ∈ blocks, ContradictsAtEnd block
  consistent : ∀ before, before <+: rest → ¬ Contradictory before
  nothing : rest = [] → result = none
  something : rest ≠ [] → ∃ implication, result = some implication ∧ implication.values ≠ [] ∧
    ∀ value, value ∈ implication.values ↔ ∀ each ∈ rest, value ∈ each.values

variable {result : Option Implication}

theorem leaves_append {rest : List Implication} (leaves : Leaves implications blocks rest result)
    {last : Implication} (nonempty : last.values ≠ []) :
    ∃ blocks' rest', Leaves (implications ++ [last]) blocks' rest'
      (mergeImplications result (some last)) := by
  by_cases fresh : rest = []
  · subst fresh
    refine ⟨blocks, [last], ?_, leaves.complete, ?_, nofun, fun _ => ⟨last, ?_, nonempty, by simp⟩⟩
    · rw [leaves.parts, append_nil]
    · intro before isPrefix contradictory
      have ⟨value, member⟩ := exists_mem_of_ne_nil _ nonempty
      have ⟨each, inBefore, outside⟩ := contradictory value
      rw [mem_singleton.1 (isPrefix.subset inBefore)] at outside
      exact outside member
    · rw [leaves.nothing rfl]
      rfl
  · obtain ⟨implication, rfl, -, common⟩ := leaves.something fresh
    have merged := isMerged_mergeImplications implication last
    -- the values common to the rest and the last predicate
    have both : ∀ value, (∀ each ∈ rest ++ [last], value ∈ each.values) ↔
        value ∈ implication.values ∧ value ∈ last.values := by
      intro value
      rw [common value, forall_mem_append, forall_mem_singleton]
    cases outcome : mergeImplications (some implication) (some last) with
    | none =>
      rw [outcome] at merged
      refine ⟨blocks ++ [rest ++ [last]], [], ?_, ?_, ?_, fun _ => rfl, fun absurd => ?_⟩
      · rw [leaves.parts, flatten_append, flatten_singleton, append_nil, append_assoc]
      · intro block member
        obtain earlier | isLast := mem_append.1 member
        · exact leaves.complete block earlier
        · rw [mem_singleton.1 isLast]
          refine ⟨fun value => ?_, fun before isPrefix proper => ?_⟩
          · have apart := merged value
            rw [← both value] at apart
            simpa only [not_forall, exists_prop] using apart
          · obtain whole | inRest := prefix_concat_iff.1 isPrefix
            · exact absurd whole proper
            · exact leaves.consistent before inRest
      · intro before isPrefix
        rw [prefix_nil.1 isPrefix]
        exact not_contradictory_nil
      · exact (absurd rfl).elim
    | some narrower =>
      rw [outcome] at merged
      refine ⟨blocks, rest ++ [last], ?_, leaves.complete, ?_, ?_, fun _ => ⟨narrower, rfl, ?_⟩⟩
      · rw [leaves.parts, append_assoc]
      · intro before isPrefix contradictory
        obtain whole | inRest := prefix_concat_iff.1 isPrefix
        · have ⟨value, member⟩ := exists_mem_of_ne_nil _ merged.1
          have ⟨each, inBefore, outside⟩ := contradictory value
          rw [whole] at inBefore
          exact outside ((both value).2 ((merged.2 value).1 member) each inBefore)
        · exact leaves.consistent before inRest contradictory
      · exact fun empty => absurd empty (by simp)
      · exact ⟨merged.1, fun value => (merged.2 value).trans (both value).symm⟩

theorem exists_leaves (nonempty : ∀ each ∈ implications, each.values ≠ []) :
    ∃ blocks rest, Leaves implications blocks rest (narrowed none implications) := by
  induction implications using List.reverseRecOn with
  | nil =>
    refine ⟨[], [], rfl, nofun, fun before isPrefix => ?_, fun _ => rfl, fun absurd => ?_⟩
    · rw [prefix_nil.1 isPrefix]
      exact not_contradictory_nil
    · exact (absurd rfl).elim
  | append_singleton implications last ih =>
    rw [forall_mem_append, forall_mem_singleton] at nonempty
    have ⟨blocks, rest, leaves⟩ := ih nonempty.1
    rw [narrowed, foldl_append]
    exact leaves_append leaves nonempty.2

theorem prefix_of_cons {rest : List Implication} {block : List Implication}
    (leaves : Leaves implications (block :: blocks) rest result) :
    block <+: implications ∧ Contradictory block := by
  refine ⟨?_, (leaves.complete block mem_cons_self).1⟩
  rw [leaves.parts, flatten_cons, append_assoc]
  exact prefix_append _ _

theorem narrowed_of_contradictsAtEnd {block : List Implication}
    (nonempty : ∀ each ∈ block, each.values ≠ []) (atEnd : ContradictsAtEnd block) :
    narrowed none block = none := by
  have ⟨blocks, rest, leaves⟩ := exists_leaves nonempty
  cases blocks with
  | nil =>
    have whole : block = rest := by simpa using leaves.parts
    exact absurd atEnd.1 (whole ▸ leaves.consistent rest (prefix_refl rest))
  | cons first blocks =>
    have ⟨isPrefix, contradictory⟩ := prefix_of_cons leaves
    have whole : first = block := by
      by_contra proper
      exact atEnd.2 first isPrefix proper contradictory
    apply leaves.nothing
    have parts := leaves.parts
    rw [flatten_cons, whole, append_assoc, self_eq_append_right, append_eq_nil_iff] at parts
    exact parts.2

theorem narrowed_flatten (nonempty : ∀ each ∈ blocks.flatten, each.values ≠ [])
    (complete : ∀ block ∈ blocks, ContradictsAtEnd block) :
    narrowed none blocks.flatten = none := by
  induction blocks with
  | nil => rfl
  | cons block blocks ih =>
    rw [flatten_cons, forall_mem_append] at nonempty
    rw [forall_mem_cons] at complete
    have first := narrowed_of_contradictsAtEnd nonempty.1 complete.1
    rw [narrowed] at first ⊢
    rw [flatten_cons, foldl_append, first]
    exact ih nonempty.2 complete.2

theorem contradictory_flatten (complete : ∀ block ∈ blocks, ContradictsAtEnd block) :
    blocks.flatten = [] ∨ Contradictory blocks.flatten := by
  cases blocks with
  | nil => exact Or.inl rfl
  | cons block blocks =>
    refine Or.inr (contradictory_of_subset (complete block mem_cons_self).1 ?_)
    intro each member
    exact mem_append_left _ member

theorem isIntersection_narrowed_iff (nonempty : ∀ each ∈ implications, each.values ≠ []) :
    IsIntersection implications (narrowed none implications) ↔ Narrowable implications := by
  have ⟨blocks, rest, leaves⟩ := exists_leaves nonempty
  constructor
  · intro isIntersection
    cases blocks with
    | nil =>
      have whole : implications = rest := by simpa using leaves.parts
      rw [whole]
      exact Or.inl fun before isPrefix _ => leaves.consistent before isPrefix
    | cons first blocks =>
      -- a contradiction leaves nothing to hold, so there may be no rest
      have ⟨isPrefix, contradictory⟩ := prefix_of_cons leaves
      have all := contradictory_of_subset contradictory fun _ member => isPrefix.subset member
      have ended : rest = [] := by
        by_contra unfinished
        obtain ⟨implication, isResult, hasValue, -⟩ := leaves.something unfinished
        rw [isResult] at isIntersection
        have ⟨value, member⟩ := exists_mem_of_ne_nil _ hasValue
        have ⟨each, inAll, outside⟩ := all value
        exact outside ((isIntersection.2.2 value).1 member each inAll)
      refine Or.inr ⟨first :: blocks, ?_, leaves.complete⟩
      rw [leaves.parts, ended, append_nil]
  · rintro (early | ⟨pieces, rfl, complete⟩)
    · cases blocks with
      | nil =>
        have whole : implications = rest := by simpa using leaves.parts
        rw [whole] at leaves ⊢
        by_cases none : rest = []
        · rw [leaves.nothing none]
          exact Or.inl none
        · have ⟨implication, isResult, hasValue, common⟩ := leaves.something none
          rw [isResult]
          exact ⟨none, hasValue, common⟩
      | cons first blocks =>
        have ⟨isPrefix, contradictory⟩ := prefix_of_cons leaves
        have whole : first = implications := by
          by_contra proper
          exact early first isPrefix proper contradictory
        rw [whole] at contradictory
        have atEnd : ContradictsAtEnd implications := ⟨contradictory, early⟩
        rw [narrowed_of_contradictsAtEnd nonempty atEnd]
        exact Or.inr contradictory
    · rw [narrowed_flatten nonempty complete]
      exact contradictory_flatten complete

/-! ### Predicates on one field -/

theorem values_ne_nil_of_implicationOf {op : Op} {value : Json} {implication : Implication}
    (implies : implicationOf op value = some implication) : implication.values ≠ [] := by
  unfold implicationOf at implies
  split_ifs at implies
  split at implies
  · cases implies
    exact cons_ne_nil _ _
  · cases implies
    exact cons_ne_nil _ _
  · split at implies
    · contradiction
    · contradiction
    · rename_i nonempty _
      cases implies
      exact nonempty
  · contradiction

section Conjuncts

variable {base : BaseDefinition} {today : NaiveDate} {identity : FieldIdentity}

mutual

theorem values_ne_nil_of_conjuncts : (filter : Filter) →
    ∀ each ∈ conjuncts base today identity filter, each.values ≠ []
  | .all children => by
    rw [conjuncts]
    exact values_ne_nil_of_conjunctsOfAll children
  | .any children => by
    intro each member
    rw [conjuncts] at member
    split at member
    · rename_i found values alternatives
      split_ifs at member with same
      · rw [mem_singleton.1 member]
        have ⟨nonempty, branches⟩ := singleFieldAlternatives_eq_some alternatives
        cases branches with
        | nil => contradiction
        | cons _ _ => exact cons_ne_nil _ _
      · contradiction
    · contradiction
  | .not _ => nofun
  | .cmp field op value => by
    intro each member
    rw [conjuncts] at member
    split at member
    · split_ifs at member
      · exact values_ne_nil_of_implicationOf (Option.mem_toList.1 member)
      · contradiction
    · contradiction

theorem values_ne_nil_of_conjunctsOfAll : (children : List Filter) →
    ∀ each ∈ conjunctsOfAll base today identity children, each.values ≠ []
  | [] => nofun
  | child :: children => by
    rw [conjunctsOfAll, forall_mem_append]
    exact ⟨values_ne_nil_of_conjuncts child, values_ne_nil_of_conjunctsOfAll children⟩

end

theorem conjunctsOfAll_eq_flatMap (children : List Filter) :
    conjunctsOfAll base today identity children = children.flatMap (conjuncts base today identity) := by
  induction children with
  | nil => rfl
  | cons child children ih =>
    rw [conjunctsOfAll, ih, flatMap_cons]

end Conjuncts

def impliedValues (implied : Option Implication) : List Json :=
  (implied.map Implication.values).getD []

theorem mem_impliedValues (isIntersection : IsIntersection implications result) (value : Json) :
    value ∈ impliedValues result ↔
      implications ≠ [] ∧ ∀ each ∈ implications, value ∈ each.values := by
  cases result with
  | some implication =>
    rw [← isIntersection.2.2 value, and_iff_right isIntersection.1]
    rfl
  | none =>
    refine ⟨nofun, fun both => ?_⟩
    obtain empty | contradictory := isIntersection
    · exact absurd empty both.1
    · have ⟨each, member, outside⟩ := contradictory value
      exact absurd (both.2 each member) outside

/-- The implication is the intersection of what each predicate forces exactly when no proper
beginning contradicts itself, or all falls apart into such contradictions. -/
theorem implied_isIntersection_iff (base : BaseDefinition) (today : NaiveDate) (scopes : Scopes)
    (identity : FieldIdentity) (children : List Filter) :
    (IsIntersection (conjuncts base today identity (.all children))
        ((collectFieldsIn base today scopes true (.all children) []).implied identity) ↔
      Narrowable (conjuncts base today identity (.all children))) ∧
    ∀ reordered : List Filter, reordered.Perm children →
      Narrowable (conjuncts base today identity (.all children)) →
      Narrowable (conjuncts base today identity (.all reordered)) →
      ∀ value, value ∈ impliedValues
          ((collectFieldsIn base today scopes true (.all children) []).implied identity) ↔
        value ∈ impliedValues
          ((collectFieldsIn base today scopes true (.all reordered) []).implied identity) := by
  have folds : ∀ filter, (collectFieldsIn base today scopes true filter []).implied identity =
      narrowed none (conjuncts base today identity filter) := by
    intro filter
    rw [implied_collectFieldsIn filter true []]
    rfl
  have intersects : ∀ filter, IsIntersection (conjuncts base today identity filter)
      ((collectFieldsIn base today scopes true filter []).implied identity) ↔
        Narrowable (conjuncts base today identity filter) := by
    intro filter
    rw [folds]
    exact isIntersection_narrowed_iff (values_ne_nil_of_conjuncts filter)
  refine ⟨intersects _, fun reordered permuted here there value => ?_⟩
  rw [mem_impliedValues ((intersects _).2 here), mem_impliedValues ((intersects _).2 there)]
  have samePredicates : (conjuncts base today identity (.all reordered)).Perm
      (conjuncts base today identity (.all children)) := by
    simp only [conjuncts, conjunctsOfAll_eq_flatMap]
    exact permuted.flatMap_right _
  have bothEmpty : conjuncts base today identity (.all children) = [] ↔
      conjuncts base today identity (.all reordered) = [] := by
    rw [← length_eq_zero_iff, ← length_eq_zero_iff, samePredicates.length_eq]
  simp only [ne_eq, bothEmpty, samePredicates.mem_iff]

/-- A value and a choice that has it, in both orders. -/
theorem implied_isIntersection_pair : IsIntersection
        (conjuncts sampleContext.base sampleToday (.property "status")
          (.all [.cmp "status" .eq (.string "open"),
            .cmp "status" .isIn (.array [.string "open", .string "done"])]))
        ((collectFieldsIn sampleContext.base sampleToday ⟨true, false, false⟩ true
          (.all [.cmp "status" .eq (.string "open"),
            .cmp "status" .isIn (.array [.string "open", .string "done"])]) []).implied
          (.property "status")) := by
  refine (implied_isIntersection_iff sampleContext.base sampleToday ⟨true, false, false⟩
    (.property "status") _).1.2 (Or.inl fun before isPrefix proper contradictory => ?_)
  -- every beginning has the value in common
  have ⟨each, member, outside⟩ := contradictory (.string "open")
  have inAll := isPrefix.subset member
  have values : ∀ each ∈ conjuncts sampleContext.base sampleToday (.property "status")
      (.all [.cmp "status" .eq (.string "open"),
        .cmp "status" .isIn (.array [.string "open", .string "done"])]),
      .string "open" ∈ each.values := by
    decide
  exact outside (values each inAll)

/-- Two values contradict each other, and a third is implied, though the three have none in common. -/
theorem implied_starts_afresh :
    (collectFieldsIn sampleContext.base sampleToday ⟨true, false, false⟩ true
        (.all [.cmp "status" .eq (.string "a"), .cmp "status" .eq (.string "b"),
          .cmp "status" .eq (.string "c")]) []).implied (.property "status") =
      some (.fixed (.string "c")) ∧
    ¬ IsIntersection (conjuncts sampleContext.base sampleToday (.property "status")
          (.all [.cmp "status" .eq (.string "a"), .cmp "status" .eq (.string "b"),
            .cmp "status" .eq (.string "c")]))
        ((collectFieldsIn sampleContext.base sampleToday ⟨true, false, false⟩ true
          (.all [.cmp "status" .eq (.string "a"), .cmp "status" .eq (.string "b"),
            .cmp "status" .eq (.string "c")]) []).implied (.property "status")) := by
  have implied : (collectFieldsIn sampleContext.base sampleToday ⟨true, false, false⟩ true
      (.all [.cmp "status" .eq (.string "a"), .cmp "status" .eq (.string "b"),
        .cmp "status" .eq (.string "c")]) []).implied (.property "status") =
      some (.fixed (.string "c")) := by
    decide
  refine ⟨implied, ?_⟩
  rw [implied]
  intro isIntersection
  have first := (isIntersection.2.2 (.string "c")).1 mem_cons_self (.fixed (.string "a"))
    (by decide)
  revert first
  decide

end Clepsydra.Bases
