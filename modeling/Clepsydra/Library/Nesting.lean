import Mathlib

/-!
Owns: the stack that finds, for each value of a list, the nearest earlier value below it.

Proves: what the stack holds after each value, and that its top is the nearest one below the next.
-/

namespace Clepsydra.Library.Nesting

open List

variable {α : Type} [LinearOrder α]

def popFrom (value : α) (stack : List (α × Nat)) : List (α × Nat) :=
  stack.dropWhile fun entry => value ≤ entry.1

/-- The position of the last of `values` that is below `value`, if there is one. -/
def IsNearestBelow (values : List α) (value : α) : Option Nat → Prop
  | some position =>
    (∃ present, values[position]? = some present ∧ present < value)
      ∧ ∀ later other, position < later → values[later]? = some other → value ≤ other
  | none => ∀ present ∈ values, value ≤ present

/-- Values decrease from the top, and every value of the list has an entry at or after it that is
not above it. -/
structure Holds (values : List α) (stack : List (α × Nat)) : Prop where
  decreasing : stack.Pairwise fun upper lower => lower.1 < upper.1 ∧ lower.2 < upper.2
  reads : ∀ entry ∈ stack, values[entry.2]? = some entry.1
  covers : ∀ position value, values[position]? = some value →
    ∃ entry ∈ stack, position ≤ entry.2 ∧ entry.1 ≤ value

theorem holds_nil : Holds ([] : List α) [] := ⟨.nil, nofun, nofun⟩

variable {stack : List (α × Nat)}

theorem mem_popFrom {value : α} {entry : α × Nat}
    (decreasing : stack.Pairwise fun upper lower => lower.1 < upper.1 ∧ lower.2 < upper.2) :
    entry ∈ popFrom value stack ↔ entry ∈ stack ∧ entry.1 < value := by
  induction stack with
  | nil => simp [popFrom]
  | cons top rest ih =>
    have ⟨belowTop, decreasingRest⟩ := pairwise_cons.1 decreasing
    by_cases below : value ≤ top.1
    · rw [popFrom, dropWhile_cons_of_pos (by simpa using below)]
      have rest_iff := ih decreasingRest
      rw [popFrom] at rest_iff
      rw [rest_iff, mem_cons]
      constructor
      · exact fun member => ⟨.inr member.1, member.2⟩
      · rintro ⟨rfl | inRest, isBelow⟩
        · exact absurd isBelow (not_lt.2 below)
        · exact ⟨inRest, isBelow⟩
    · rw [popFrom, dropWhile_cons_of_neg (by simpa using below)]
      constructor
      · intro member
        refine ⟨member, ?_⟩
        rcases mem_cons.1 member with rfl | inRest
        · exact not_le.1 below
        · exact lt_trans (belowTop entry inRest).1 (not_le.1 below)
      · exact And.left

theorem Holds.popped_decreasing {values : List α} (holds : Holds values stack) (value : α) :
    (popFrom value stack).Pairwise fun upper lower => lower.1 < upper.1 ∧ lower.2 < upper.2 :=
  holds.decreasing.sublist (dropWhile_sublist _)

/-- **The stack is kept.** The next value goes on top of the entries below it. -/
theorem Holds.push {values : List α} (holds : Holds values stack) (value : α) :
    Holds (values ++ [value]) ((value, values.length) :: popFrom value stack) where
  decreasing := by
    refine pairwise_cons.2 ⟨fun entry member => ?_, holds.popped_decreasing value⟩
    have ⟨inStack, below⟩ := (mem_popFrom holds.decreasing).1 member
    refine ⟨below, ?_⟩
    exact (List.getElem?_eq_some_iff.1 (holds.reads entry inStack)).1
  reads := by
    intro entry member
    rcases mem_cons.1 member with rfl | popped
    · simp
    · have read := holds.reads entry ((mem_popFrom holds.decreasing).1 popped).1
      rw [getElem?_append_left (List.getElem?_eq_some_iff.1 read).1]
      exact read
  covers := by
    intro position other isOther
    by_cases inside : position < values.length
    · rw [getElem?_append_left inside] at isOther
      have ⟨entry, member, after, notAbove⟩ := holds.covers position other isOther
      by_cases below : entry.1 < value
      · exact ⟨entry, mem_cons_of_mem _ ((mem_popFrom holds.decreasing).2 ⟨member, below⟩),
          after, notAbove⟩
      · exact ⟨_, mem_cons_self, Nat.le_of_lt inside, le_trans (not_lt.1 below) notAbove⟩
    · have bound := (List.getElem?_eq_some_iff.1 isOther).1
      rw [length_append, length_singleton] at bound
      obtain rfl : position = values.length := by omega
      obtain rfl : value = other := by simpa using isOther
      exact ⟨_, mem_cons_self, Nat.le_refl _, le_rfl⟩

/-- **The top is the nearest one below.** -/
theorem Holds.nearest {values : List α} (holds : Holds values stack) (value : α) :
    IsNearestBelow values value ((popFrom value stack).head?.map Prod.snd) := by
  have popped : ∀ {entry}, entry ∈ popFrom value stack ↔ entry ∈ stack ∧ entry.1 < value :=
    mem_popFrom holds.decreasing
  cases shape : popFrom value stack with
  | nil =>
    intro present member
    have ⟨position, isPresent⟩ := mem_iff_getElem?.1 member
    have ⟨entry, inStack, _, notAbove⟩ := holds.covers position present isPresent
    by_contra above
    have gone := popped.2 ⟨inStack, lt_of_le_of_lt notAbove (not_le.1 above)⟩
    rw [shape] at gone
    exact nomatch gone
  | cons top rest =>
    have isTop : top ∈ popFrom value stack := shape ▸ mem_cons_self
    have ⟨inStack, below⟩ := popped.1 isTop
    refine ⟨⟨top.1, holds.reads top inStack, below⟩, ?_⟩
    intro later other after isOther
    have ⟨entry, member, atOrAfter, notAbove⟩ := holds.covers later other isOther
    by_contra above
    have kept := popped.2 ⟨member, lt_of_le_of_lt notAbove (not_le.1 above)⟩
    have newest : entry.2 ≤ top.2 := by
      have sorted := holds.popped_decreasing value
      rw [shape] at kept sorted
      rcases mem_cons.1 kept with rfl | inRest
      · exact Nat.le_refl _
      · exact Nat.le_of_lt ((pairwise_cons.1 sorted).1 entry inRest).2
    omega

end Clepsydra.Library.Nesting
