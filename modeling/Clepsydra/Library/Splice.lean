import Mathlib

/-!
Owns: edits that replace ranges of a text, applied from the last one to the first.

Proves: edits that lie apart keep what stands outside their ranges, and put each replacement in.
-/

namespace Clepsydra.Library.Splice

open List

variable {α : Type}

/-- Replace the range from `start` to `stop`. -/
structure Edit (α : Type) where
  start : Nat
  stop : Nat
  replacement : List α
deriving DecidableEq

def replaceRange (text : List α) (edit : Edit α) : List α :=
  text.take edit.start ++ edit.replacement ++ text.drop edit.stop

def lastFirst (edits : List (Edit α)) : List (Edit α) :=
  edits.insertionSort fun first second => second.start ≤ first.start

def applyEdits (text : List α) (edits : List (Edit α)) : List α :=
  (lastFirst edits).foldl replaceRange text

/-! ### The text between the edits -/

variable {edits : List (Edit α)} {text : List α}

def splice (text : List α) : List (Edit α) → List α
  | [] => text
  | edit :: earlier =>
    splice (text.take edit.start) earlier ++ (edit.replacement ++ text.drop edit.stop)

structure Descending (length : Nat) (edits : List (Edit α)) : Prop where
  apart : edits.Pairwise fun later earlier => earlier.stop ≤ later.start
  within : ∀ edit ∈ edits, edit.start ≤ edit.stop ∧ edit.stop ≤ length

theorem Descending.earlier {length : Nat} {edit : Edit α}
    (descending : Descending length (edit :: edits)) : Descending edit.start edits := by
  have apart := pairwise_cons.1 descending.apart
  refine ⟨apart.2, fun other member => ?_⟩
  have bounds := descending.within other (mem_cons_of_mem _ member)
  exact ⟨bounds.1, apart.1 other member⟩

theorem foldl_replaceRange_append {kept : List α} (rest : List α)
    (descending : Descending kept.length edits) :
    edits.foldl replaceRange (kept ++ rest) = edits.foldl replaceRange kept ++ rest := by
  induction edits generalizing kept rest with
  | nil => rfl
  | cons edit edits ih =>
    have bounds := descending.within edit mem_cons_self
    have shorter : (kept.take edit.start).length = edit.start := by
      rw [length_take]
      omega
    have earlier : Descending (kept.take edit.start).length edits := by
      rw [shorter]
      exact descending.earlier
    have whole : replaceRange (kept ++ rest) edit
        = kept.take edit.start ++ (edit.replacement ++ (kept.drop edit.stop ++ rest)) := by
      rw [replaceRange, take_append_of_le_length (by omega),
        drop_append_of_le_length bounds.2, append_assoc]
    rw [foldl_cons, foldl_cons, whole, ih _ earlier, replaceRange, append_assoc, ih _ earlier]
    simp only [append_assoc]

theorem foldl_replaceRange_eq_splice (descending : Descending text.length edits) :
    edits.foldl replaceRange text = splice text edits := by
  induction edits generalizing text with
  | nil => rfl
  | cons edit edits ih =>
    have bounds := descending.within edit mem_cons_self
    have shorter : (text.take edit.start).length = edit.start := by
      rw [length_take]
      omega
    have earlier : Descending (text.take edit.start).length edits := by
      rw [shorter]
      exact descending.earlier
    rw [foldl_cons, replaceRange, append_assoc, foldl_replaceRange_append _ earlier, ih earlier]
    rfl

theorem mem_splice {edit : Edit α} (member : edit ∈ edits) {item : α}
    (replaced : item ∈ edit.replacement) : item ∈ splice text edits := by
  induction edits generalizing text with
  | nil => exact nomatch member
  | cons first edits ih =>
    rw [splice, mem_append, mem_append]
    rcases mem_cons.1 member with rfl | earlier
    · exact Or.inr (Or.inl replaced)
    · exact Or.inl (ih earlier)

theorem mem_of_splice {item : α} (member : item ∈ splice text edits) :
    item ∈ text ∨ ∃ edit ∈ edits, item ∈ edit.replacement := by
  induction edits generalizing text with
  | nil => exact Or.inl member
  | cons first edits ih =>
    rw [splice, mem_append, mem_append] at member
    rcases member with before | replaced | after
    · rcases ih before with inText | ⟨edit, earlier, replaced⟩
      · exact Or.inl (mem_of_mem_take inText)
      · exact Or.inr ⟨edit, mem_cons_of_mem _ earlier, replaced⟩
    · exact Or.inr ⟨first, mem_cons_self, replaced⟩
    · exact Or.inl (mem_of_mem_drop after)

/-! ### Edits in any order -/

def Apart (first second : Edit α) : Prop := (first.stop ≤ second.start ∧ first.start < second.start)
    ∨ (second.stop ≤ first.start ∧ second.start < first.start)

theorem Apart.symm {first second : Edit α} (apart : Apart first second) : Apart second first :=
  Or.symm apart

theorem lastFirst_perm (edits : List (Edit α)) : (lastFirst edits).Perm edits :=
  perm_insertionSort _ edits

theorem descending_lastFirst {length : Nat} (apart : edits.Pairwise Apart)
    (within : ∀ edit ∈ edits, edit.start ≤ edit.stop ∧ edit.stop ≤ length) :
    Descending length (lastFirst edits) := by
  have total : Std.Total fun first second : Edit α => second.start ≤ first.start :=
    ⟨fun first second => Nat.le_total second.start first.start⟩
  have transitive : IsTrans (Edit α) fun first second => second.start ≤ first.start :=
    ⟨fun _ _ _ before after => Nat.le_trans after before⟩
  have sorted : (lastFirst edits).Pairwise fun first second => second.start ≤ first.start :=
    pairwise_insertionSort _ edits
  have sortedApart : (lastFirst edits).Pairwise Apart :=
    (lastFirst_perm edits).symm.pairwise apart Apart.symm
  refine ⟨(sorted.and sortedApart).imp fun {later earlier} both => ?_, fun edit member => ?_⟩
  · rcases both.2 with ⟨_, wrongWay⟩ | rightWay
    · have order := both.1
      omega
    · exact rightWay.1
  · exact within edit ((lastFirst_perm edits).mem_iff.1 member)

theorem applyEdits_eq_splice (apart : edits.Pairwise Apart)
    (within : ∀ edit ∈ edits, edit.start ≤ edit.stop ∧ edit.stop ≤ text.length) :
    applyEdits text edits = splice text (lastFirst edits) :=
  foldl_replaceRange_eq_splice (descending_lastFirst apart within)

end Clepsydra.Library.Splice
