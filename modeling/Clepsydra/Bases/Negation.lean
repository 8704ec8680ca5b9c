import Clepsydra.Bases.QueryAdequacy

/-!
Contract: which rows the clauses of a filter and of its negation return.

The laws of negation hold of a filter on a row exactly when it is decided there
(`negationLaws_iff_filterDecided`).
-/

namespace Clepsydra.Bases

open Library Library.Sqlite Vault

/-! ### Selected rows -/

theorem SqlFilter.Realizes.selects_eq {compiled : SqlFilter} {tables : Tables} {row : PageRow}
    {meaning : Option Bool} (realizes : compiled.Realizes tables row meaning) :
    compiled.selects tables row = (meaning == some true) := by
  obtain ⟨bound, takes, rfl⟩ := realizes
  have whole := takes []
  rw [List.append_nil] at whole
  rw [SqlFilter.selects, whole]

section Laws

variable (unicode : Unicode) (ctx : QueryContext) (tables : Tables) (row : PageRow)

def Accepted (filter : Filter) : Prop := ∃ compiled, compileFilter unicode ctx filter = .ok compiled

def rowSelected (filter : Filter) : Bool :=
  match compileFilter unicode ctx filter with
  | .ok compiled => compiled.selects tables row
  | .error _ => false

/-- Exactly one of the filter and its negation returns the row, and so for the dual group. -/
structure NegationLaws (filter : Filter) : Prop where
  complement : rowSelected unicode ctx tables row (.not filter)
    = !rowSelected unicode ctx tables row filter
  negatedAll : ∀ children, filter = .all children →
    rowSelected unicode ctx tables row (.not (.all children))
      = rowSelected unicode ctx tables row (.any (children.map .not))
  negatedAny : ∀ children, filter = .any children →
    rowSelected unicode ctx tables row (.not (.any children))
      = rowSelected unicode ctx tables row (.all (children.map .not))

variable {unicode ctx}

theorem rowSelected_of_accepted {filter : Filter} (accepted : Accepted unicode ctx filter) :
    rowSelected unicode ctx tables row filter
      = (filterMeaning unicode ctx tables row filter == some true) := by
  have ⟨compiled, success⟩ := accepted
  rw [rowSelected, success]
  exact (compileFilter_realizes tables row success).selects_eq

/-! ### Acceptance is by the leaves -/

theorem accepted_not_iff {child : Filter} :
    Accepted unicode ctx (.not child) ↔ Accepted unicode ctx child := by
  rw [Accepted, compileFilter]
  exact Fallible.bind_isOk_iff fun _ => ⟨_, rfl⟩

variable {children : List Filter}

private theorem compileChildren_ok_iff :
    (∃ parts, compileChildren unicode ctx children = .ok parts)
      ↔ ∀ child ∈ children, Accepted unicode ctx child := by
  induction children with
  | nil => simp [compileChildren]
  | cons child children ih =>
    rw [List.forall_mem_cons, ← ih]
    constructor
    · rintro ⟨parts, success⟩
      obtain ⟨head, compiledHead, success⟩ := Fallible.of_bind_ok success
      obtain ⟨tail, compiledTail, _⟩ := Fallible.of_bind_ok success
      exact ⟨⟨head, compiledHead⟩, tail, compiledTail⟩
    · rintro ⟨⟨head, compiledHead⟩, tail, compiledTail⟩
      exact ⟨(head.clause :: tail.1, head.params ++ tail.2), by
        simp only [compileChildren, compiledHead, compiledTail, bind, Except.bind]⟩

theorem accepted_all_iff :
    Accepted unicode ctx (.all children) ↔ ∀ child ∈ children, Accepted unicode ctx child := by
  rw [← compileChildren_ok_iff]
  cases children with
  | nil => simp [Accepted, compileFilter, compileChildren]
  | cons child children =>
    rw [Accepted, compileFilter]
    exact Fallible.bind_isOk_iff fun _ => ⟨_, rfl⟩

theorem accepted_any_iff :
    Accepted unicode ctx (.any children) ↔ ∀ child ∈ children, Accepted unicode ctx child := by
  rw [← compileChildren_ok_iff]
  cases children with
  | nil => simp [Accepted, compileFilter, compileChildren]
  | cons child children =>
    rw [Accepted, compileFilter]
    exact Fallible.bind_isOk_iff fun _ => ⟨_, rfl⟩

/-! ### The laws -/

theorem rowSelected_not_all (accepted : ∀ child ∈ children, Accepted unicode ctx child) :
    rowSelected unicode ctx tables row (.not (.all children))
      = rowSelected unicode ctx tables row (.any (children.map .not)) := by
  have negations : ∀ child ∈ children.map Filter.not, Accepted unicode ctx child := by
    simpa only [List.forall_mem_map, accepted_not_iff] using accepted
  rw [rowSelected_of_accepted tables row (accepted_not_iff.2 (accepted_all_iff.2 accepted)),
    rowSelected_of_accepted tables row (accepted_any_iff.2 negations), filterMeaning_not,
    filterMeaning_all, filterMeaning_any, Kleene.not_all, List.map_map, List.map_map]
  simp only [Function.comp_def, filterMeaning_not]

theorem rowSelected_not_any (accepted : ∀ child ∈ children, Accepted unicode ctx child) :
    rowSelected unicode ctx tables row (.not (.any children))
      = rowSelected unicode ctx tables row (.all (children.map .not)) := by
  have negations : ∀ child ∈ children.map Filter.not, Accepted unicode ctx child := by
    simpa only [List.forall_mem_map, accepted_not_iff] using accepted
  rw [rowSelected_of_accepted tables row (accepted_not_iff.2 (accepted_any_iff.2 accepted)),
    rowSelected_of_accepted tables row (accepted_all_iff.2 negations), filterMeaning_not,
    filterMeaning_any, filterMeaning_all, Kleene.not_any, List.map_map, List.map_map]
  simp only [Function.comp_def, filterMeaning_not]

/-- One of a filter and its negation returns a row precisely when the filter is decided on it. -/
theorem complement_iff_filterDecided {filter : Filter} (accepted : Accepted unicode ctx filter) :
    rowSelected unicode ctx tables row (.not filter) = !rowSelected unicode ctx tables row filter
      ↔ filterDecided unicode ctx tables row filter = true := by
  rw [rowSelected_of_accepted tables row accepted,
    rowSelected_of_accepted tables row (accepted_not_iff.2 accepted), filterMeaning_not,
    filterMeaning]
  cases filterDecided unicode ctx tables row filter <;>
    cases filterHolds unicode ctx tables row filter <;> decide

/-- **Negation is complement exactly on decided rows.** -/
theorem negationLaws_iff_filterDecided {filter : Filter} (accepted : Accepted unicode ctx filter) :
    NegationLaws unicode ctx tables row filter
      ↔ filterDecided unicode ctx tables row filter = true := by
  rw [← complement_iff_filterDecided tables row accepted]
  refine ⟨fun laws => laws.complement, fun complement => ⟨complement, ?_, ?_⟩⟩
  · rintro children rfl
    exact rowSelected_not_all tables row (accepted_all_iff.1 accepted)
  · rintro children rfl
    exact rowSelected_not_any tables row (accepted_any_iff.1 accepted)

end Laws

/-! ### A row that neither clause returns -/

def emptyTables : Tables := ⟨[], [], [], []⟩

def bareRow : PageRow where
  id := "a"
  path := "a.md"
  title := none
  kind := "NOTE"
  project := none
  createdAt := none
  updatedAt := none
  encrypted := false
  journalDate := none
  wordCount := none

def plainContext : QueryContext where
  base := none
  types := []
  today := .newYear

/-- `title = "x"`. -/
def titleIsX : Filter := .cmp "title" .eq (.string "x")

/-- A page with a title is returned by exactly one of `title = "x"` and its negation. -/
theorem negationLaws_titled : Accepted ⟨id, id⟩ plainContext titleIsX
      ∧ NegationLaws ⟨id, id⟩ plainContext emptyTables { bareRow with title := some "y" }
          titleIsX := by
  have accepted : Accepted ⟨id, id⟩ plainContext titleIsX := ⟨_, rfl⟩
  exact ⟨accepted, (negationLaws_iff_filterDecided _ _ accepted).2 (by decide)⟩

/-- A page without a title is returned neither by `title = "x"` nor by its negation. -/
theorem untitled_escapes_negation : Accepted ⟨id, id⟩ plainContext titleIsX
      ∧ rowSelected ⟨id, id⟩ plainContext emptyTables bareRow titleIsX = false
      ∧ rowSelected ⟨id, id⟩ plainContext emptyTables bareRow (.not titleIsX) = false
      ∧ ¬NegationLaws ⟨id, id⟩ plainContext emptyTables bareRow titleIsX := by
  have neither : rowSelected ⟨id, id⟩ plainContext emptyTables bareRow titleIsX = false
      ∧ rowSelected ⟨id, id⟩ plainContext emptyTables bareRow (.not titleIsX) = false := by decide
  refine ⟨⟨_, rfl⟩, neither.1, neither.2, fun laws => ?_⟩
  have complement := laws.complement
  rw [neither.1, neither.2] at complement
  cases complement

end Clepsydra.Bases
