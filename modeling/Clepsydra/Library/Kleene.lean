import Mathlib

/-!
Owns: strong three-valued logic on `Option Bool`, where `none` is the unknown
truth value, with the finite conjunction and disjunction of a list.
-/

namespace Clepsydra.Library.Kleene

open List

def not : Option Bool → Option Bool
  | some value => some (!value)
  | none => none

def and : Option Bool → Option Bool → Option Bool
  | some false, _ => some false
  | some true, right => right
  | none, some false => some false
  | none, _ => none

def or : Option Bool → Option Bool → Option Bool
  | some true, _ => some true
  | some false, right => right
  | none, some true => some true
  | none, _ => none

def all : List (Option Bool) → Option Bool
  | [] => some true
  | head :: tail => and head (all tail)

def any : List (Option Bool) → Option Bool
  | [] => some false
  | head :: tail => or head (any tail)

/-! ### Negation -/

@[simp] theorem not_some (value : Bool) : not (some value) = some (!value) := rfl

@[simp] theorem not_none : not none = none := rfl

theorem not_and (left right : Option Bool) : not (and left right) = or (not left) (not right) := by
  rcases left with _ | _ | _ <;> rcases right with _ | _ | _ <;> rfl

theorem not_or (left right : Option Bool) : not (or left right) = and (not left) (not right) := by
  rcases left with _ | _ | _ <;> rcases right with _ | _ | _ <;> rfl

theorem not_all (values : List (Option Bool)) : not (all values) = any (values.map not) := by
  induction values with
  | nil => rfl
  | cons head tail ih =>
    simp only [all, any, map_cons, not_and, ih]

theorem not_any (values : List (Option Bool)) : not (any values) = all (values.map not) := by
  induction values with
  | nil => rfl
  | cons head tail ih =>
    simp only [all, any, map_cons, not_or, ih]

/-! ### When a group is decided -/

@[simp] theorem and_some (left right : Bool) : and (some left) (some right) = some (left && right) := by
  cases left <;> rfl

@[simp] theorem or_some (left right : Bool) : or (some left) (some right) = some (left || right) := by
  cases left <;> rfl

theorem and_eq_true_iff (left right : Option Bool) :
    and left right = some true ↔ left = some true ∧ right = some true := by
  rcases left with _ | _ | _ <;> rcases right with _ | _ | _ <;> decide

theorem all_eq_true_iff (values : List (Option Bool)) :
    all values = some true ↔ ∀ value ∈ values, value = some true := by
  induction values with
  | nil => simp [all]
  | cons head tail ih =>
    simp only [all, and_eq_true_iff, ih, forall_mem_cons]

theorem all_beq_true (values : List (Option Bool)) :
    (all values == some true) = values.all (· == some true) := by
  rw [Bool.eq_iff_iff, beq_iff_eq, all_eq_true_iff, all_eq_true]
  simp only [beq_iff_eq]

theorem all_map_some {α : Type} (holds : α → Bool) (items : List α) :
    all (items.map fun item => some (holds item)) = some (items.all holds) := by
  induction items with
  | nil => rfl
  | cons head tail ih =>
    rw [map_cons, all, ih, and_some, all_cons]

theorem any_map_some {α : Type} (holds : α → Bool) (items : List α) :
    any (items.map fun item => some (holds item)) = some (items.any holds) := by
  induction items with
  | nil => rfl
  | cons head tail ih =>
    rw [map_cons, any, ih, or_some, any_cons]

/-! ### Values by decidedness -/

def ofDecided (decided value : Bool) : Option Bool :=
  if decided then some value else none

@[simp] theorem ofDecided_true (value : Bool) : ofDecided true value = some value := rfl

@[simp] theorem ofDecided_false (value : Bool) : ofDecided false value = none := rfl

theorem not_ofDecided (decided value : Bool) :
    not (ofDecided decided value) = ofDecided decided (!value) := by
  cases decided <;> rfl

theorem and_ofDecided {every falsified holds : Bool} (decided value : Bool)
    (falsifies : falsified = true → holds = false)
    (found : every = true → holds = false → falsified = true) :
    and (ofDecided decided value) (ofDecided (every || falsified) holds)
      = ofDecided ((decided && every) || ((decided && value == false) || falsified))
          (value && holds) := by
  revert every falsified holds decided value
  decide

theorem or_ofDecided {every verified holds : Bool} (decided value : Bool)
    (verifies : verified = true → holds = true)
    (found : every = true → holds = true → verified = true) :
    or (ofDecided decided value) (ofDecided (every || verified) holds)
      = ofDecided ((decided && every) || ((decided && value == true) || verified))
          (value || holds) := by
  revert every verified holds decided value
  decide

end Clepsydra.Library.Kleene
