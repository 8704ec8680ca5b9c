import Mathlib

/-!
Owns: the pieces of a list, each with the separator that ends it.

Proves: a list that is cut behind a separator has the pieces of both parts; all pieces but the last
one are ended, and lists of such a shape are the pieces of what they make.
-/

namespace Clepsydra.Library.Pieces

open List

variable {α : Type} (separator : α)

def Whole (list : List α) : Prop := ∀ last ∈ list.getLast?, last = separator

variable {separator}

@[simp] theorem whole_nil : Whole separator [] := nofun

theorem whole_concat (list : List α) : Whole separator (list ++ [separator]) := by
  intro last isLast
  rw [getLast?_concat] at isLast
  exact (Option.some.inj isLast).symm

theorem Whole.append {first second : List α} (whole : Whole separator first)
    (other : Whole separator second) : Whole separator (first ++ second) := by
  rcases eq_nil_or_concat second with rfl | ⟨before, last, rfl⟩
  · rwa [append_nil]
  · have isLast : last = separator := other last (by simp)
    rw [isLast, concat_eq_append, ← append_assoc]
    exact whole_concat _

theorem whole_of_append {first second : List α} (some : second ≠ [])
    (whole : Whole separator (first ++ second)) : Whole separator second := by
  intro last isLast
  apply whole
  rw [getLast?_append_of_ne_nil first some]
  exact isLast

variable [DecidableEq α]

/-- `split_inclusive`. -/
def splitInclusive (separator : α) : List α → List (List α)
  | [] => []
  | head :: rest =>
    if head = separator then [head] :: splitInclusive separator rest
    else
      match splitInclusive separator rest with
      | [] => [[head]]
      | first :: others => (head :: first) :: others

@[simp] theorem splitInclusive_nil : splitInclusive separator [] = [] := rfl

theorem splitInclusive_eq_nil_iff {list : List α} :
    splitInclusive separator list = [] ↔ list = [] := by
  cases list with
  | nil => simp
  | cons head rest =>
    rw [splitInclusive]
    split_ifs
    · simp
    · split <;> simp

theorem splitInclusive_append_cons {content : List α} (absent : separator ∉ content)
    (rest : List α) :
    splitInclusive separator (content ++ separator :: rest)
      = (content ++ [separator]) :: splitInclusive separator rest := by
  induction content with
  | nil => simp [splitInclusive]
  | cons head content ih =>
    rw [mem_cons, not_or] at absent
    rw [cons_append, splitInclusive, if_neg (Ne.symm absent.1), ih absent.2]
    rfl

theorem splitInclusive_of_not_mem {piece : List α} (some : piece ≠ [])
    (absent : separator ∉ piece) :
    splitInclusive separator piece = [piece] := by
  induction piece with
  | nil => exact absurd rfl some
  | cons head rest ih =>
    rw [mem_cons, not_or] at absent
    rw [splitInclusive, if_neg (Ne.symm absent.1)]
    by_cases more : rest = []
    · rw [more, splitInclusive_nil]
    · rw [ih more absent.2]

theorem splitInclusive_append {before : List α} (whole : Whole separator before) (after : List α) :
    splitInclusive separator (before ++ after)
      = splitInclusive separator before ++ splitInclusive separator after := by
  induction before with
  | nil => rfl
  | cons head rest ih =>
    rw [cons_append, splitInclusive, splitInclusive]
    by_cases isSeparator : head = separator
    · have restWhole : Whole separator rest := by
        by_cases more : rest = []
        · rw [more]
          exact whole_nil
        · exact @whole_of_append _ _ [head] rest more whole
      rw [if_pos isSeparator, if_pos isSeparator, ih restWhole, cons_append]
    · have more : rest ≠ [] := by
        rintro rfl
        exact isSeparator (whole head rfl)
      have restWhole : Whole separator rest := @whole_of_append _ _ [head] rest more whole
      obtain ⟨first, others, isRest⟩ := exists_cons_of_ne_nil (mt splitInclusive_eq_nil_iff.1 more)
      rw [if_neg isSeparator, if_neg isSeparator, ih restWhole, isRest]
      rfl

theorem exists_last_piece {list : List α} (some : list ≠ [])
    (unended : list.getLast? ≠ Option.some separator) :
    ∃ before piece, list = before ++ piece ∧ Whole separator before ∧ piece ≠ []
      ∧ separator ∉ piece := by
  induction list with
  | nil => exact absurd rfl some
  | cons head rest ih =>
    by_cases more : rest = []
    · rw [more] at unended ⊢
      refine ⟨[], [head], rfl, whole_nil, cons_ne_nil _ _, ?_⟩
      rw [mem_singleton]
      intro same
      exact unended (congrArg Option.some same.symm)
    · rw [getLast?_cons_of_ne_nil more] at unended
      obtain ⟨before, piece, rfl, whole, pieceSome, absent⟩ := ih more unended
      by_cases isSeparator : head = separator
      · refine ⟨head :: before, piece, rfl, ?_, pieceSome, absent⟩
        rw [isSeparator]
        exact (whole_concat []).append whole
      · cases before with
        | nil =>
          refine ⟨[], head :: piece, rfl, whole_nil, cons_ne_nil _ _, ?_⟩
          rw [mem_cons, not_or]
          exact ⟨Ne.symm isSeparator, absent⟩
        | cons second before =>
          exact ⟨head :: second :: before, piece, rfl, whole, pieceSome, absent⟩

/-! ### The shape of the pieces -/

def Ended (separator : α) (piece : List α) : Prop :=
  ∃ content, separator ∉ content ∧ piece = content ++ [separator]

def IsPiece (separator : α) (piece : List α) : Prop :=
  Ended separator piece ∨ (piece ≠ [] ∧ separator ∉ piece)

theorem splitInclusive_shape (list : List α) :
    (splitInclusive separator list).Pairwise (fun piece _ => Ended separator piece)
      ∧ (∀ piece ∈ splitInclusive separator list, IsPiece separator piece)
      ∧ (splitInclusive separator list).flatten = list := by
  induction list with
  | nil => exact ⟨.nil, nofun, rfl⟩
  | cons head rest ih =>
    have ⟨ended, isPiece, joined⟩ := ih
    rw [splitInclusive]
    split_ifs with isSeparator
    · have here : Ended separator [head] := ⟨[], not_mem_nil, isSeparator ▸ rfl⟩
      exact ⟨.cons (fun _ _ => here) ended, forall_mem_cons.2 ⟨.inl here, isPiece⟩,
        congrArg (cons head) joined⟩
    · split
      · rename_i none
        rw [none] at joined
        refine ⟨pairwise_singleton _ _, forall_mem_singleton.2 (.inr ⟨cons_ne_nil _ _, ?_⟩), ?_⟩
        · exact fun member => isSeparator (mem_singleton.1 member).symm
        · rw [← joined]
          rfl
      · rename_i first others isRest
        rw [isRest] at ended isPiece joined
        rw [pairwise_cons] at ended
        rw [forall_mem_cons] at isPiece
        have longer : Ended separator first → Ended separator (head :: first) := by
          intro ⟨content, absent, isFirst⟩
          refine ⟨head :: content, ?_, by rw [isFirst, cons_append]⟩
          rw [mem_cons, not_or]
          exact ⟨Ne.symm isSeparator, absent⟩
        refine ⟨.cons (fun other member => longer (ended.1 other member)) ended.2,
          forall_mem_cons.2 ⟨?_, isPiece.2⟩, congrArg (cons head) joined⟩
        apply isPiece.1.imp longer
        intro ⟨_, absent⟩
        refine ⟨cons_ne_nil _ _, ?_⟩
        rw [mem_cons, not_or]
        exact ⟨Ne.symm isSeparator, absent⟩

theorem splitInclusive_flatten {pieces : List (List α)}
    (ended : pieces.Pairwise fun piece _ => Ended separator piece)
    (isPiece : ∀ piece ∈ pieces, IsPiece separator piece) :
    splitInclusive separator pieces.flatten = pieces := by
  induction pieces with
  | nil => rfl
  | cons first rest ih =>
    rw [pairwise_cons] at ended
    rw [forall_mem_cons] at isPiece
    have isRest := ih ended.2 isPiece.2
    have ofEnded : Ended separator first →
        splitInclusive separator (first :: rest).flatten = first :: rest := by
      intro ⟨content, absent, isFirst⟩
      rw [flatten_cons, isFirst, append_assoc, singleton_append, splitInclusive_append_cons absent,
        isRest]
    cases rest with
    | cons second rest => exact ofEnded (ended.1 second mem_cons_self)
    | nil =>
      rcases isPiece.1 with here | ⟨some, absent⟩
      · exact ofEnded here
      · rw [flatten_singleton, splitInclusive_of_not_mem some absent]

end Clepsydra.Library.Pieces
