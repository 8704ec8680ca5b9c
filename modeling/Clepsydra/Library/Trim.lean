import Mathlib

/-!
Owns: the trimming of a list of what is blank at its edges.

Proves: what is cut off is blank and what is left is tight; a tight list is what is left of every
list that has blanks around it.
-/

namespace Clepsydra.Library.Trim

open List

variable {α : Type} (blank : α → Bool)

def trim (text : List α) : List α := (text.dropWhile blank).rdropWhile blank

def Tight (text : List α) : Prop :=
  (∀ first ∈ text.head?, blank first = false) ∧ ∀ last ∈ text.getLast?, blank last = false

instance (text : List α) : Decidable (Tight blank text) :=
  inferInstanceAs (Decidable ((∀ first ∈ text.head?, blank first = false) ∧
    ∀ last ∈ text.getLast?, blank last = false))

variable {blank} {text : List α}

theorem dropWhile_eq_self_iff_head :
    text.dropWhile blank = text ↔ ∀ first ∈ text.head?, blank first = false := by
  cases text with
  | nil => simp
  | cons first rest =>
    cases isBlank : blank first with
    | false => simp [isBlank]
    | true =>
      rw [dropWhile_cons_of_pos isBlank]
      constructor
      · intro same
        have shorter := (dropWhile_suffix blank (l := rest)).length_le
        rw [same, length_cons] at shorter
        omega
      · intro solid
        exact absurd (isBlank.symm.trans (solid first rfl)) nofun

theorem rdropWhile_eq_self_iff_last :
    text.rdropWhile blank = text ↔ ∀ last ∈ text.getLast?, blank last = false := by
  rw [List.rdropWhile, reverse_eq_iff, dropWhile_eq_self_iff_head, head?_reverse]

theorem trim_eq_self_iff : trim blank text = text ↔ Tight blank text := by
  constructor
  · intro same
    have short : text.dropWhile blank = text := by
      apply (dropWhile_suffix blank).eq_of_length_le
      have trimmed := (List.rdropWhile_prefix blank (text.dropWhile blank)).length_le
      have isText : ((text.dropWhile blank).rdropWhile blank).length = text.length :=
        congrArg List.length same
      omega
    unfold trim at same
    rw [short] at same
    exact ⟨dropWhile_eq_self_iff_head.1 short, rdropWhile_eq_self_iff_last.1 same⟩
  · intro tight
    unfold trim
    rw [dropWhile_eq_self_iff_head.2 tight.1, rdropWhile_eq_self_iff_last.2 tight.2]

theorem exists_of_trim (text : List α) :
    ∃ before after, text = before ++ (trim blank text ++ after) ∧
      (∀ character ∈ before, blank character = true) ∧ ∀ character ∈ after, blank character = true := by
  refine ⟨text.takeWhile blank, (text.dropWhile blank).rtakeWhile blank, ?_, ?_, ?_⟩
  · unfold trim
    rw [rdropWhile_append_rtakeWhile, takeWhile_append_dropWhile]
  · exact all_eq_true.1 all_takeWhile
  · exact fun character member => mem_rtakeWhile_imp member

theorem tight_trim (text : List α) : Tight blank (trim blank text) := by
  have idempotent : (trim blank text).rdropWhile blank = trim blank text :=
    rdropWhile_idempotent blank _
  refine ⟨?_, rdropWhile_eq_self_iff_last.1 idempotent⟩
  intro first isFirst
  have ⟨after, split⟩ := rdropWhile_prefix blank (text.dropWhile blank)
  have kept : ∀ first ∈ (text.dropWhile blank).head?, blank first = false :=
    dropWhile_eq_self_iff_head.1 (dropWhile_idempotent blank text)
  have isHead : ((text.dropWhile blank).rdropWhile blank).head? = some first := isFirst
  apply kept
  rw [← split, head?_append, isHead]
  rfl

theorem trim_trim (text : List α) : trim blank (trim blank text) = trim blank text :=
  trim_eq_self_iff.2 (tight_trim text)

theorem trim_append_blanks {before after : List α}
    (blankBefore : ∀ character ∈ before, blank character = true)
    (blankAfter : ∀ character ∈ after, blank character = true) (text : List α) :
    trim blank (before ++ (text ++ after)) = trim blank text := by
  unfold trim
  rw [dropWhile_append_of_pos blankBefore]
  by_cases allBlank : ∀ character ∈ text, blank character = true
  · have noText : text.dropWhile blank = [] := dropWhile_eq_nil_iff.2 allBlank
    have nothing : (text ++ after).dropWhile blank = [] := by
      rw [dropWhile_append_of_pos allBlank]
      exact dropWhile_eq_nil_iff.2 blankAfter
    rw [noText, nothing]
  · have some : text.dropWhile blank ≠ [] := fun none =>
      allBlank (dropWhile_eq_nil_iff.1 none)
    have isEmpty : (text.dropWhile blank).isEmpty = false := isEmpty_eq_false_iff.2 some
    rw [dropWhile_append, isEmpty, if_neg Bool.false_ne_true, List.rdropWhile,
      reverse_append, dropWhile_append_of_pos]
    · rfl
    · exact fun character member => blankAfter character (mem_reverse.1 member)

theorem trim_of_tight {before after : List α} (tight : Tight blank text)
    (blankBefore : ∀ character ∈ before, blank character = true)
    (blankAfter : ∀ character ∈ after, blank character = true) :
    trim blank (before ++ (text ++ after)) = text := by
  rw [trim_append_blanks blankBefore blankAfter, trim_eq_self_iff.2 tight]

theorem mem_trim_of_solid {character : α} (member : character ∈ text)
    (solid : blank character = false) : character ∈ trim blank text := by
  have ⟨before, after, split, blankBefore, blankAfter⟩ := @exists_of_trim _ blank text
  have notBlank : ¬blank character = true := by
    rw [solid]
    exact Bool.false_ne_true
  rw [split, mem_append, mem_append] at member
  rcases member with before | inside | after
  · exact absurd (blankBefore _ before) notBlank
  · exact inside
  · exact absurd (blankAfter _ after) notBlank

theorem length_trim_le (text : List α) : (trim blank text).length ≤ text.length :=
  ((List.rdropWhile_prefix blank _).length_le).trans (dropWhile_suffix blank).length_le

end Clepsydra.Library.Trim
