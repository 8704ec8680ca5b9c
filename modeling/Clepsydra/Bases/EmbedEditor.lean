import Clepsydra.Bases.Embed

/-!
Owns: the limits that the editor checks before it saves an embedded view.

Proves: for overrides that both sides can write, the editor accepts exactly those for which the
server reports no diagnostic.
-/

namespace Clepsydra.Bases.EmbedEditor

open Library.Fallible List

/-! ### The editor -/

structure BaseEmbedValidationError where
  path : String
  message : String

abbrev Checked := Except BaseEmbedValidationError

def fail {α : Type} (message path : String) : Checked α := .error ⟨path, message⟩

mutual

/-- The stack is taken from its end, so the last item comes first. -/
def validateTomlData (path : String) : Json → Checked Unit
  | .string value =>
    if value.utf8ByteSize > maxScalarStringBytes then
      fail ("String value is " ++ toString value.utf8ByteSize ++ " UTF-8 bytes; maximum is "
        ++ toString maxScalarStringBytes) path
    else .ok ()
  | .bool _ | .number _ => .ok ()
  | .array items => validateItems path 0 items
  | .object entries => validateEntries path entries
  | .null => fail "Filter values must be JSON-compatible TOML data" path

def validateItems (path : String) (index : Nat) : List Json → Checked Unit
  | [] => .ok ()
  | item :: rest => do
    validateItems path (index + 1) rest
    validateTomlData (path ++ "[" ++ toString index ++ "]") item

def validateEntries (path : String) : List (String × Json) → Checked Unit
  | [] => .ok ()
  | (key, value) :: rest => do
    validateEntries path rest
    validateTomlData (path ++ "." ++ key) value

end

def assertBoundedField (field path : String) : Checked Unit :=
  if field.utf8ByteSize > maxFieldBytes then
    fail ("Field identifier is " ++ toString field.utf8ByteSize ++ " UTF-8 bytes; maximum is "
      ++ toString maxFieldBytes) path
  else .ok ()

def checkOperand (op : Op) (value : Json) (path : String) : Checked Unit :=
  match op, value with
  | .linksTo, .string _ => .ok ()
  | .linksTo, _ => fail "Filter operator `links_to` expects a string target" path
  | .isIn, .array items =>
    if items.length > maxInValues then
      fail ("Filter operator `in` accepts at most " ++ toString maxInValues ++ " values") path
    else .ok ()
  | .isIn, _ => fail "Filter operator `in` expects an array" path
  | _, _ => .ok ()

/-- The checks of a comparison. -/
def validateComparison (field : String) (op : Op) (value : Json) (path : String) :
    Checked Unit := do
  assertBoundedField field (path ++ ".field")
  if op.isValueless then .ok ()
  else
    checkOperand op value (path ++ ".value")
    validateTomlData (path ++ ".value") value

/-- The checks of every node, and the number of nodes with it. -/
def enterNode (depth nodes : Nat) (path : String) : Checked Nat :=
  if depth > maxFilterDepth then
    fail ("Filter depth " ++ toString depth ++ " exceeds maximum of " ++ toString maxFilterDepth) path
  else if nodes + 1 > maxFilterNodes then
    fail ("Filter has more than " ++ toString maxFilterNodes ++ " nodes") path
  else .ok (nodes + 1)

def boundChildren (count : Nat) (path : String) : Checked Unit :=
  if count > maxLogicalChildren then
    fail ("Filter group has " ++ toString count ++ " children; maximum is "
      ++ toString maxLogicalChildren) path
  else .ok ()

mutual

def validateFilter (depth nodes : Nat) (path : String) : Filter → Checked Nat
  | .all children => do
    let nodes ← enterNode depth nodes path
    boundChildren children.length (path ++ ".all")
    validateChildren depth nodes path "all" 0 children
  | .any children => do
    let nodes ← enterNode depth nodes path
    boundChildren children.length (path ++ ".any")
    validateChildren depth nodes path "any" 0 children
  | .not child => do
    let nodes ← enterNode depth nodes path
    validateFilter (depth + 1) nodes (path ++ ".not") child
  | .cmp field op value => do
    let nodes ← enterNode depth nodes path
    validateComparison field op value path
    return nodes

def validateChildren (depth nodes : Nat) (path key : String) (index : Nat) :
    List Filter → Checked Nat
  | [] => .ok nodes
  | child :: rest => do
    let nodes ←
      validateFilter (depth + 1) nodes (path ++ "." ++ key ++ "[" ++ toString index ++ "]") child
    validateChildren depth nodes path key (index + 1) rest

end

def validateSortKeys (index : Nat) : List SortKey → Checked Unit
  | [] => .ok ()
  | key :: rest => do
    assertBoundedField key.field ("sort[" ++ toString index ++ "].field")
    validateSortKeys (index + 1) rest

def validateSort (sort : List SortKey) : Checked Unit :=
  if sort.length > maxSortKeys then
    fail ("Sort has " ++ toString sort.length ++ " keys; maximum is " ++ toString maxSortKeys) "sort"
  else validateSortKeys 0 sort

def boundLimit (limit : Nat) : Checked Unit :=
  if minLimit ≤ limit ∧ limit ≤ maxLimit then .ok ()
  else
    fail ("`limit` must be an integer from " ++ toString minLimit ++ " through " ++ toString maxLimit)
      "limit"

/-- The checks of `assertValidBaseEmbedConfig` on a filter, a sort list and a limit. -/
def assertValidOverrides (overrides : EmbedOverrides) : Checked Unit := do
  overrides.filter.elim (.ok ()) fun filter => (validateFilter 1 0 "filter" filter).map fun _ => ()
  overrides.sort.elim (.ok ()) validateSort
  overrides.limit.elim (.ok ()) boundLimit

/-! ### What both sides can write -/

/-- A value of TOML data: nothing in it is null. -/
inductive TomlData : Json → Prop where
  | bool (value : Bool) : TomlData (.bool value)
  | number (value : JsonNumber) : TomlData (.number value)
  | string (value : String) : TomlData (.string value)
  | array {items : List Json} (each : ∀ item ∈ items, TomlData item) : TomlData (.array items)
  | object {entries : List (String × Json)} (each : ∀ entry ∈ entries, TomlData entry.2) :
    TomlData (.object entries)

/-- An operator without a value has none, and another has one of its kind. -/
def Written (op : Op) (value : Json) : Prop :=
  if op.isValueless then value = .null
  else TomlData value ∧ (op = .linksTo → ∃ target, value = .string target) ∧
    (op = .isIn → ∃ items, value = .array items)

inductive WellFormed : Filter → Prop where
  | all {children : List Filter} (each : ∀ child ∈ children, WellFormed child) :
    WellFormed (.all children)
  | any {children : List Filter} (each : ∀ child ∈ children, WellFormed child) :
    WellFormed (.any children)
  | not {child : Filter} (inner : WellFormed child) : WellFormed (.not child)
  | cmp {field : String} {op : Op} {value : Json} (written : Written op value) :
    WellFormed (.cmp field op value)

/-! ### Values -/

variable {path field place : String}

theorem unit_bind_ok_iff {ε α : Type} {first : Except ε Unit} {next : Except ε α} {result : α} :
    (do first; next) = .ok result ↔ first = .ok () ∧ next = .ok result := by
  cases first with
  | error failure => exact ⟨fun fails => (nomatch fails), fun both => (nomatch both.1)⟩
  | ok value => exact ⟨fun success => ⟨rfl, success⟩, And.right⟩

theorem validateTomlData_ok_iff {value : Json} (data : TomlData value) :
    ∀ {path : String}, validateTomlData path value = .ok () ↔
      validateStringSizes field place value = [] := by
  induction data with
  | bool | number => intro path; exact iff_of_true rfl rfl
  | string value =>
    intro path
    rw [validateTomlData, validateStringSizes]
    split
    · exact iff_of_false (fun fails => nomatch fails) (cons_ne_nil _ _)
    · exact iff_of_true rfl rfl
  | @array items each ih =>
    intro path
    rw [validateTomlData, validateStringSizes]
    generalize 0 = index
    induction items generalizing index with
    | nil => exact iff_of_true rfl rfl
    | cons item rest rests =>
      rw [forall_mem_cons] at each ih
      rw [validateItems, itemStringSizes, unit_bind_ok_iff, append_eq_nil_iff,
        rests each.2 ih.2, ih.1]
  | @object entries each ih =>
    intro path
    rw [validateTomlData, validateStringSizes]
    induction entries with
    | nil => exact iff_of_true rfl rfl
    | cons entry rest rests =>
      rw [forall_mem_cons] at each ih
      rw [validateEntries, entryStringSizes, unit_bind_ok_iff, append_eq_nil_iff,
        rests each.2 ih.2, ih.1]

theorem assertBoundedField_ok_iff {filterPath : Option String} :
    assertBoundedField field path = .ok () ↔ validateFieldSize field filterPath = [] := by
  rw [assertBoundedField, validateFieldSize]
  split
  · exact iff_of_false (fun fails => nomatch fails) (cons_ne_nil _ _)
  · exact iff_of_true rfl rfl

theorem checkOperand_ok_iff {op : Op} {value : Json} {diagnostic : EmbedValidationDiagnostic}
    (ofLink : op = .linksTo → ∃ target, value = .string target)
    (ofList : op = .isIn → ∃ items, value = .array items) :
    checkOperand op value path = .ok () ↔
      (if op = .isIn ∧ (value.asArray.getD []).length > maxInValues then [diagnostic] else []) =
        [] := by
  unfold checkOperand
  split
  · exact iff_of_true rfl (if_neg fun both => nomatch both.1)
  next other =>
    have ⟨target, isText⟩ := ofLink rfl
    exact absurd isText (other target)
  next items =>
    show (if items.length > maxInValues then _ else _) = _ ↔
      (if _ ∧ items.length > maxInValues then _ else _) = _
    simp only [true_and]
    split
    · exact iff_of_false (fun fails => nomatch fails) (cons_ne_nil _ _)
    · exact iff_of_true rfl rfl
  next other =>
    have ⟨items, isArray⟩ := ofList rfl
    exact absurd isArray (other items)
  next notList =>
    refine iff_of_true rfl (if_neg fun both => ?_)
    have ⟨items, isArray⟩ := ofList both.1
    exact notList items both.1 isArray

theorem validateComparison_ok_iff {op : Op} {value : Json} (written : Written op value) :
    validateComparison field op value path = .ok () ↔ comparisonSizes field op value path = [] := by
  rw [validateComparison, comparisonSizes, unit_bind_ok_iff, append_eq_nil_iff,
    append_eq_nil_iff, ← assertBoundedField_ok_iff, and_assoc]
  apply and_congr_right
  intro _
  unfold Written at written
  split at written
  next valueless =>
    rw [written, if_pos valueless]
    exact iff_of_true rfl ⟨if_neg fun many => Nat.not_lt_zero _ many.2, rfl⟩
  next carries =>
    have ⟨data, ofLink, ofList⟩ := written
    rw [if_neg carries, unit_bind_ok_iff, validateTomlData_ok_iff data,
      checkOperand_ok_iff ofLink ofList]

/-! ### Trees -/

/-- The trees that wait to be visited, in their order, with the number of nodes so far. -/
def validateStack (nodes : Nat) : List (Filter × Nat × String) → Checked Nat
  | [] => .ok nodes
  | (filter, depth, path) :: stack => do
    let nodes ← validateFilter depth nodes path filter
    validateStack nodes stack

variable {nodes : Nat}

theorem validateStack_append {first second : List (Filter × Nat × String)} :
    validateStack nodes (first ++ second) =
      (validateStack nodes first >>= fun nodes => validateStack nodes second) := by
  induction first generalizing nodes with
  | nil => rfl
  | cons entry rest ih =>
    have ⟨filter, depth, place⟩ := entry
    rw [cons_append, validateStack, validateStack, bind_assoc]
    simp only [ih]

variable {depth : Nat}

theorem validateChildren_eq {key : String} {children : List Filter} :
    validateChildren depth nodes path key 0 children =
      validateStack nodes (childrenAt depth path key children) := by
  rw [childrenAt]
  generalize 0 = index
  induction children generalizing nodes index with
  | nil => rfl
  | cons child rest ih =>
    rw [validateChildren, zipIdx_cons, map_cons, validateStack]
    simp only [ih]

def Accepts {α : Type} (checked : Checked α) : Prop := ∃ value, checked = .ok value

theorem accepts_unit {α : Type} {first : Checked Unit} {next : Checked α} :
    Accepts (do first; next) ↔ first = .ok () ∧ Accepts next := by
  simp only [Accepts, unit_bind_ok_iff, exists_and_left]

theorem accepts_enterNode {α : Type} {next : Nat → Checked α} :
    Accepts (enterNode depth nodes path >>= next) ↔
      depth ≤ maxFilterDepth ∧ nodes < maxFilterNodes ∧ Accepts (next (nodes + 1)) := by
  unfold enterNode
  split
  · refine iff_of_false ?_ (by omega)
    exact fun ⟨_, fails⟩ => nomatch fails
  · split
    · refine iff_of_false ?_ (by omega)
      exact fun ⟨_, fails⟩ => nomatch fails
    · exact ⟨fun accepts => ⟨by omega, by omega, accepts⟩, fun both => both.2.2⟩

theorem boundChildren_ok_iff {children : Nat} :
    boundChildren children path = .ok () ↔ children ≤ maxLogicalChildren := by
  unfold boundChildren
  split
  · exact iff_of_false (fun fails => nomatch fails) (by omega)
  · exact iff_of_true rfl (by omega)

/-- The editor enters the first tree that waits as the server visits it. -/
theorem accepts_cons {filter : Filter} {stack : List (Filter × Nat × String)}
    (wellFormed : WellFormed filter) :
    Accepts (validateStack nodes ((filter, depth, path) :: stack)) ↔
      nodes < maxFilterNodes ∧ (visitNode filter depth path).1 = [] ∧
        Accepts (validateStack (nodes + 1) ((visitNode filter depth path).2 ++ stack)) := by
  rw [validateStack]
  by_cases deep : depth > maxFilterDepth
  · have refused : (visitNode filter depth path).1 ≠ [] := by
      unfold visitNode
      simp only [if_pos deep]
      exact cons_ne_nil _ _
    refine iff_of_false (fun accepts => ?_) fun both => refused both.2.1
    cases wellFormed <;> rw [validateFilter, bind_assoc, accepts_enterNode] at accepts <;> omega
  have shallow : depth ≤ maxFilterDepth := by omega
  have group : ∀ (key : String) (children : List Filter) (diagnostic : EmbedValidationDiagnostic),
      (nodes < maxFilterNodes ∧ children.length ≤ maxLogicalChildren ∧
        Accepts (validateStack (nodes + 1) (childrenAt depth path key children ++ stack))) ↔
      nodes < maxFilterNodes ∧ (if children.length > maxLogicalChildren then ([diagnostic], [])
          else ([], childrenAt depth path key children)).1 = [] ∧
        Accepts (validateStack (nodes + 1)
          ((if children.length > maxLogicalChildren then ([diagnostic], [])
            else ([], childrenAt depth path key children)).2 ++ stack)) := by
    intro key children diagnostic
    split
    · exact iff_of_false (fun both => by omega) fun both => cons_ne_nil _ _ both.2.1
    · simp only [true_and, show children.length ≤ maxLogicalChildren by omega]
  cases wellFormed with
  | @all children each =>
    rw [validateFilter, bind_assoc, accepts_enterNode, bind_assoc, accepts_unit, boundChildren_ok_iff,
      validateChildren_eq, ← validateStack_append, visitNode, if_neg deep, and_iff_right shallow]
    exact group "all" children _
  | @any children each =>
    rw [validateFilter, bind_assoc, accepts_enterNode, bind_assoc, accepts_unit, boundChildren_ok_iff,
      validateChildren_eq, ← validateStack_append, visitNode, if_neg deep, and_iff_right shallow]
    exact group "any" children _
  | @not child inner =>
    rw [validateFilter, bind_assoc, accepts_enterNode, visitNode, if_neg deep, and_iff_right shallow]
    simp only [true_and]
    rfl
  | @cmp field op value written =>
    rw [validateFilter, bind_assoc, accepts_enterNode, bind_assoc, accepts_unit,
      validateComparison_ok_iff written, visitNode, if_neg deep, and_iff_right shallow]
    rfl

theorem wellFormed_visitNode {filter : Filter} (wellFormed : WellFormed filter) :
    ∀ entry ∈ (visitNode filter depth path).2, WellFormed entry.1 := by
  have group : ∀ (key : String) (children : List Filter), (∀ child ∈ children, WellFormed child) →
      ∀ entry ∈ childrenAt depth path key children, WellFormed entry.1 := by
    intro key children each entry found
    obtain ⟨child, isChild, rfl⟩ := mem_map.1 found
    exact each child.1 (fst_mem_of_mem_zipIdx isChild)
  intro entry found
  unfold visitNode at found
  simp only at found
  split at found
  · exact absurd found not_mem_nil
  cases wellFormed with
  | @all children each =>
    simp only at found
    split at found
    · exact absurd found not_mem_nil
    · exact group "all" children each entry found
  | @any children each =>
    simp only at found
    split at found
    · exact absurd found not_mem_nil
    · exact group "any" children each entry found
  | @not child inner =>
    rw [mem_singleton.1 found]
    exact inner
  | cmp written => exact absurd found not_mem_nil

/-- The editor's walk and the server's end together, with the nodes that are left for the server. -/
theorem accepts_validateStack_iff {remaining : Nat} :
    ∀ {nodes : Nat} {stack : List (Filter × Nat × String)}, nodes + remaining = maxFilterNodes →
      (∀ entry ∈ stack, WellFormed entry.1) →
      (Accepts (validateStack nodes stack) ↔ visitNodes remaining stack = []) := by
  induction remaining with
  | zero =>
    intro nodes stack full wellFormed
    cases stack with
    | nil => exact iff_of_true ⟨nodes, rfl⟩ rfl
    | cons entry stack =>
      rw [forall_mem_cons] at wellFormed
      rw [accepts_cons wellFormed.1]
      exact iff_of_false (fun both => by omega) (cons_ne_nil _ _)
  | succ remaining ih =>
    intro nodes stack room wellFormed
    cases stack with
    | nil => exact iff_of_true ⟨nodes, rfl⟩ rfl
    | cons entry stack =>
      rw [forall_mem_cons] at wellFormed
      have inside : nodes < maxFilterNodes := by omega
      rw [accepts_cons wellFormed.1, and_iff_right inside, visitNodes, append_eq_nil_iff]
      apply and_congr_right
      intro _
      apply ih (by omega)
      intro other found
      obtain visited | waits := mem_append.1 found
      · exact wellFormed_visitNode wellFormed.1 other visited
      · exact wellFormed.2 other waits

theorem validateSort_ok_iff {sort : List SortKey} {diagnostic : EmbedValidationDiagnostic} :
    validateSort sort = .ok () ↔ (if sort.length > maxSortKeys then [diagnostic] else []) ++
        sort.flatMap (fun key => validateFieldSize key.field none) = [] := by
  have keys : ∀ index, validateSortKeys index sort = .ok () ↔
      sort.flatMap (fun key => validateFieldSize key.field none) = [] := by
    induction sort with
    | nil => exact fun _ => iff_of_true rfl rfl
    | cons key rest ih =>
      intro index
      rw [validateSortKeys, unit_bind_ok_iff, flatMap_cons, append_eq_nil_iff, ih,
        ← assertBoundedField_ok_iff]
  rw [validateSort]
  split
  · exact iff_of_false (fun fails => nomatch fails) (cons_ne_nil _ _)
  · exact keys 0

/-- **The editor accepts exactly what the server reports nothing about.** -/
theorem editor_accepts_iff {overrides : EmbedOverrides}
    (wellFormed : ∀ filter ∈ overrides.filter, WellFormed filter) :
    assertValidOverrides overrides = .ok () ↔ validateComplexity overrides = [] := by
  obtain ⟨filter, sort, limit, groupBy⟩ := overrides
  rw [assertValidOverrides, unit_bind_ok_iff, unit_bind_ok_iff, validateComplexity,
    append_eq_nil_iff, append_eq_nil_iff]
  refine (and_congr ?_ (and_congr ?_ ?_)).trans
    ⟨fun all => ⟨⟨all.2.2, all.2.1⟩, all.1⟩, fun all => ⟨all.2, all.1.2, all.1.1⟩⟩
  · cases filter with
    | none => exact iff_of_true rfl rfl
    | some root =>
      have walks := @accepts_validateStack_iff maxFilterNodes 0 [(root, 1, "filter")]
        (Nat.zero_add _) fun entry found => mem_singleton.1 found ▸ wellFormed root rfl
      rw [← walks, Option.elim_some, validateStack]
      cases validateFilter 1 0 "filter" root with
      | error failure =>
        apply iff_of_false (fun fails => by cases fails)
        rintro ⟨_, fails⟩
        cases fails
      | ok nodes => exact iff_of_true rfl ⟨nodes, rfl⟩
  · cases sort with
    | none => exact iff_of_true rfl rfl
    | some keys => exact validateSort_ok_iff
  · cases limit with
    | none => exact iff_of_true rfl rfl
    | some count =>
      rw [Option.elim_some, boundLimit]
      simp only
      split
      · exact iff_of_true rfl rfl
      · exact iff_of_false (fun fails => by cases fails) (cons_ne_nil _ _)

/-! ### One tree -/

def exampleOverrides : EmbedOverrides where
  filter := some (.all [.cmp "status" .isIn (.array [.string "OPEN"]), .not (.cmp "due" .isToday .null)])
  sort := some []
  limit := some 20
  groupBy := none

theorem editor_accepts_iff_example :
    assertValidOverrides exampleOverrides = .ok () ↔ validateComplexity exampleOverrides = [] := by
  apply editor_accepts_iff
  intro filter isFilter
  obtain rfl := Option.some.inj isFilter
  refine .all (forall_mem_cons.2 ⟨.cmp ?_, forall_mem_singleton.2 (.not (.cmp rfl))⟩)
  refine ⟨.array (forall_mem_singleton.2 (.string "OPEN")), ?_, fun _ => ⟨_, rfl⟩⟩
  exact fun isLink => nomatch isLink

end Clepsydra.Bases.EmbedEditor
