import Mathlib

/-!
Owns: the first occurrence of a pattern in a text, where the pattern begins with an element
that does not occur in the rest of it, as a line break does in a break and a fence.
-/

namespace Clepsydra.Library

open List

variable {α : Type} [DecidableEq α]

def splitOnce (pattern : List α) : List α → Option (List α × List α)
  | [] => none
  | head :: rest =>
    if pattern.isPrefixOf (head :: rest) then some ([], (head :: rest).drop pattern.length)
    else (splitOnce pattern rest).map fun parts => (head :: parts.1, parts.2)

/-- What stands before and after the pattern make up the text, and it does not occur before. -/
theorem append_of_splitOnce {pattern text before after : List α}
    (found : splitOnce pattern text = some (before, after)) :
    text = before ++ (pattern ++ after) ∧ (pattern ≠ [] → ¬pattern <:+: before) := by
  induction text generalizing before with
  | nil => exact nomatch found
  | cons first text ih =>
    rw [splitOnce] at found
    by_cases here : pattern.isPrefixOf (first :: text) = true
    · rw [if_pos here, Option.some.injEq, Prod.mk.injEq] at found
      rw [← found.1, ← found.2]
      have ⟨rest, split⟩ := isPrefixOf_iff_prefix.1 here
      refine ⟨by rw [← split]; simp, fun nonempty occurs => nonempty (infix_nil.1 occurs)⟩
    · rw [if_neg here] at found
      have ⟨parts, later, same⟩ := Option.map_eq_some_iff.1 found
      obtain ⟨rfl, rfl⟩ := Prod.mk.inj same
      have ⟨split, absent⟩ := ih later
      refine ⟨by rw [cons_append, ← split], fun nonempty occurs => ?_⟩
      rcases infix_cons_iff.1 occurs with begins | inside
      · apply here
        rw [List.isPrefixOf_iff_prefix, split, ← cons_append]
        exact begins.trans (prefix_append _ _)
      · exact absent nonempty inside

theorem splitOnce_eq_none_iff {pattern text : List α} (nonempty : pattern ≠ []) :
    splitOnce pattern text = none ↔ ¬pattern <:+: text := by
  induction text with
  | nil => simp [splitOnce, nonempty]
  | cons first text ih =>
    rw [splitOnce, infix_cons_iff, not_or, ← ih]
    by_cases here : pattern.isPrefixOf (first :: text) = true
    · rw [if_pos here]
      simp [List.isPrefixOf_iff_prefix.1 here]
    · rw [if_neg here, Option.map_eq_none_iff]
      rw [List.isPrefixOf_iff_prefix] at here
      simp [here]

section Separated

variable {separator : α} {tail : List α}

omit [DecidableEq α] in
theorem prefix_of_prefix_append {before after : List α} (fresh : separator ∉ tail)
    (begins : tail <+: before ++ separator :: after) : tail <+: before := by
  induction before generalizing tail with
  | nil =>
    cases tail with
    | nil => exact prefix_rfl
    | cons head rest =>
      have same : head = separator := (cons_prefix_cons.1 begins).1
      exact absurd (same ▸ mem_cons_self) fresh
  | cons first before ih =>
    cases tail with
    | nil => exact nil_prefix
    | cons head rest =>
      obtain ⟨rfl, later⟩ := cons_prefix_cons.1 begins
      apply cons_prefix_cons.2 ⟨rfl, ?_⟩
      exact ih (fun member => fresh (mem_cons_of_mem _ member)) later

omit [DecidableEq α] in
theorem infix_append_separator_iff (fresh : separator ∉ tail) (before after : List α) :
    separator :: tail <:+: before ++ separator :: after ↔
      separator :: tail <:+: before ∨ separator :: tail <:+: separator :: after := by
  induction before with
  | nil => simp
  | cons first before ih =>
    rw [cons_append, infix_cons_iff, infix_cons_iff, ih, or_assoc]
    apply or_congr_left
    rw [cons_prefix_cons, cons_prefix_cons]
    constructor
    · exact fun ⟨same, begins⟩ => ⟨same, prefix_of_prefix_append fresh begins⟩
    · exact fun ⟨same, begins⟩ => ⟨same, begins.trans (prefix_append _ _)⟩

omit [DecidableEq α] in
theorem infix_append_iff_of_not_mem {before : List α} (absent : separator ∉ before)
    (after : List α) : separator :: tail <:+: before ++ after ↔ separator :: tail <:+: after := by
  induction before with
  | nil => rfl
  | cons first before ih =>
    rw [mem_cons, not_or] at absent
    rw [cons_append, infix_cons_iff, ih absent.2]
    apply or_iff_right
    intro begins
    exact absent.1 (cons_prefix_cons.1 begins).1

omit [DecidableEq α] in
theorem infix_append_cons_iff {pattern : List α} (absent : separator ∉ pattern)
    (before after : List α) :
    pattern <:+: before ++ separator :: after ↔ pattern <:+: before ∨ pattern <:+: after := by
  induction before with
  | nil =>
    rw [nil_append, infix_cons_iff, infix_nil]
    apply or_congr_left
    constructor
    · intro begins
      have none := @prefix_of_prefix_append α separator pattern [] after absent begins
      exact prefix_nil.1 none
    · rintro rfl
      exact nil_prefix
  | cons first before ih =>
    rw [cons_append, infix_cons_iff, infix_cons_iff, ih, or_assoc]
    apply or_congr_left
    rw [← cons_append]
    exact ⟨prefix_of_prefix_append absent, fun begins => begins.trans (prefix_append _ _)⟩

theorem splitOnce_append_cons {pattern : List α} (absent : separator ∉ pattern) {before : List α}
    (none : ¬pattern <:+: before) (after : List α) :
    splitOnce pattern (before ++ separator :: after)
      = (splitOnce pattern after).map fun parts => (before ++ separator :: parts.1, parts.2) := by
  have later : ∀ rest : List α, ¬pattern <:+: rest →
      ¬pattern.isPrefixOf (rest ++ separator :: after) = true := by
    intro rest notIn begins
    rw [List.isPrefixOf_iff_prefix] at begins
    exact notIn (prefix_of_prefix_append absent begins).isInfix
  induction before with
  | nil =>
    have notHere : ¬pattern.isPrefixOf (separator :: after) = true := later [] none
    rw [nil_append, splitOnce, if_neg notHere]
    rfl
  | cons first before ih =>
    have notIn : ¬pattern <:+: before := fun occurs => none (infix_cons occurs)
    rw [cons_append, splitOnce, ← cons_append, if_neg (later _ none), ih notIn, Option.map_map]
    rfl

theorem splitOnce_of_absent (fresh : separator ∉ tail) {before : List α}
    (none : ¬separator :: tail <:+: before) (after : List α) :
    splitOnce (separator :: tail) (before ++ (separator :: tail ++ after)) =
      some (before, after) := by
  induction before with
  | nil =>
    rw [nil_append, cons_append, splitOnce, if_pos]
    · simp
    · simp
  | cons first before ih =>
    rw [infix_cons_iff, not_or] at none
    have later : ¬(separator :: tail).isPrefixOf
        (first :: (before ++ (separator :: tail ++ after))) = true := by
      rw [List.isPrefixOf_iff_prefix, cons_prefix_cons]
      intro begins
      apply none.1
      exact cons_prefix_cons.2 ⟨begins.1, prefix_of_prefix_append fresh begins.2⟩
    rw [cons_append, splitOnce, if_neg later, ih none.2]
    rfl

theorem splitOnce_of_occurs {pattern text : List α} (occurs : pattern <:+: text)
    (nonempty : pattern ≠ []) (after : List α) :
    ∃ before middle, splitOnce pattern (text ++ after) = some (before, middle ++ after) := by
  induction text with
  | nil => exact absurd (infix_nil.1 occurs) nonempty
  | cons first text ih =>
    rw [cons_append, splitOnce]
    by_cases here : pattern.isPrefixOf (first :: (text ++ after)) = true
    · refine ⟨[], (first :: text).drop pattern.length, ?_⟩
      rw [if_pos here, ← cons_append, drop_append_of_le_length occurs.length_le]
    · have later : pattern <:+: text := by
        rcases infix_cons_iff.1 occurs with begins | later
        · refine absurd ?_ here
          rw [List.isPrefixOf_iff_prefix, ← cons_append]
          exact begins.trans (prefix_append _ _)
        · exact later
      have ⟨before, middle, found⟩ := ih later
      rw [if_neg here, found]
      exact ⟨first :: before, middle, rfl⟩

end Separated

theorem not_mem_of_mem_splitOn {separator : α} {text piece : List α}
    (among : piece ∈ text.splitOn separator) : separator ∉ piece := by
  induction length : text.length using Nat.strong_induction_on generalizing text with
  | h count ih =>
    by_cases occurs : separator ∈ text
    · obtain ⟨before, after, rfl, absent⟩ := eq_append_cons_of_mem occurs
      rw [splitOn_append_cons_self_of_not_mem absent, mem_cons] at among
      rcases among with rfl | later
      · exact absent
      · apply ih after.length _ later rfl
        rw [← length, length_append, length_cons]
        omega
    · rw [splitOn_eq_singleton occurs, mem_singleton] at among
      rwa [among]

end Clepsydra.Library
