import Mathlib

/-!
Owns: the list semantics of a relational query: joins, `ORDER BY`, and `ROW_NUMBER()`.

Proves: ordering does not depend on the order of the rows if the terms tell them apart, and the rows
numbered one are the least of their partitions.
-/

namespace Clepsydra.Library.Relational

open List

variable {α β κ ι : Type}

/-! ### Joins -/

def join (on : α → β → Bool) (rows : List α) (others : List β) : List (α × β) :=
  rows.flatMap fun row => (others.filter (on row)).map fun other => (row, other)

def leftJoin (on : α → β → Bool) (rows : List α) (others : List β) : List (α × Option β) :=
  rows.flatMap fun row =>
    match others.filter (on row) with
    | [] => [(row, none)]
    | partners => partners.map fun other => (row, some other)

theorem mem_join {on : α → β → Bool} {rows : List α} {others : List β} {row : α} {other : β} :
    (row, other) ∈ join on rows others ↔ row ∈ rows ∧ other ∈ others ∧ on row other = true := by
  simp only [join, mem_flatMap, mem_map, mem_filter, Prod.mk.injEq]
  constructor
  · rintro ⟨left, leftMember, right, ⟨rightMember, agree⟩, rfl, rfl⟩
    exact ⟨leftMember, rightMember, agree⟩
  · intro ⟨leftMember, rightMember, agree⟩
    exact ⟨row, leftMember, other, ⟨rightMember, agree⟩, rfl, rfl⟩

theorem leftJoin_eq_map {on : α → β → Bool} {rows : List α} {others : List β}
    (single : ∀ row ∈ rows, (others.filter (on row)).length ≤ 1) :
    leftJoin on rows others = rows.map fun row => (row, others.find? (on row)) := by
  induction rows with
  | nil => rfl
  | cons row rest ih =>
    rw [forall_mem_cons] at single
    have others_eq := ih single.2
    rw [leftJoin] at others_eq ⊢
    rw [flatMap_cons, others_eq, map_cons, ← head?_filter]
    have few := single.1
    match partners : others.filter (on row) with
    | [] => rfl
    | [_] => rfl
    | _ :: _ :: _ =>
      rw [partners] at few
      simp only [length_cons] at few
      omega

section Keys

variable [DecidableEq ι] {key : α → ι} {rows : List α}

theorem length_filter_key_le_one (distinct : (rows.map key).Nodup) (wanted : ι) :
    (rows.filter fun row => key row == wanted).length ≤ 1 := by
  have few := nodup_iff_count_le_one.1 distinct wanted
  rwa [List.count, countP_map, countP_eq_length_filter] at few

theorem find?_key_eq_some (distinct : (rows.map key).Nodup) {wanted : ι} {row : α} :
    (rows.find? fun row => key row == wanted) = some row ↔ row ∈ rows ∧ key row = wanted := by
  constructor
  · intro found
    have same := find?_some found
    exact ⟨mem_of_find?_eq_some found, beq_iff_eq.1 same⟩
  · rintro ⟨member, isWanted⟩
    cases found : rows.find? fun row => key row == wanted with
    | none =>
      have missing := find?_eq_none.1 found row member
      exact absurd (beq_iff_eq.2 isWanted) missing
    | some other =>
      have isOther := find?_some found
      have same := inj_on_of_nodup_map distinct (mem_of_find?_eq_some found) member
        ((beq_iff_eq.1 isOther).trans isWanted.symm)
      rw [same]

end Keys

/-! ### Order -/

/-- A term of an `ORDER BY` list. -/
structure OrderTerm (α κ : Type) where
  value : α → κ
  descending : Bool

section Order

variable [LinearOrder κ]

@[grind =] def precedes : List (OrderTerm α κ) → α → α → Bool
  | [], _, _ => true
  | term :: terms, first, second =>
    if term.value first = term.value second then precedes terms first second
    else decide (term.value first < term.value second) != term.descending

def orderBy (terms : List (OrderTerm α κ)) (rows : List α) : List α :=
  rows.insertionSort fun first second => precedes terms first second = true

variable {first second : α} (terms : List (OrderTerm α κ))

include terms

theorem precedes_cons_of_eq {term : OrderTerm α κ} (same : term.value first = term.value second) :
    precedes (term :: terms) first second = precedes terms first second := by
  rw [precedes, if_pos same]

theorem precedes_cons_of_lt {term : OrderTerm α κ} (ascending : term.descending = false)
    (less : term.value first < term.value second) :
    precedes (term :: terms) first second = true := by
  rw [precedes, if_neg less.ne, decide_eq_true less, ascending]
  rfl

theorem precedes_refl (row : α) : precedes terms row row = true := by
  induction terms with
  | nil => rfl
  | cons term terms ih => rwa [precedes, if_pos rfl]

theorem precedes_total (first second : α) :
    precedes terms first second = true ∨ precedes terms second first = true := by
  induction terms with
  | nil => exact Or.inl rfl
  | cons term terms ih =>
    by_cases same : term.value first = term.value second
    · rwa [precedes, precedes, if_pos same, if_pos same.symm]
    · have different : ¬term.value second = term.value first := fun equal => same equal.symm
      rw [precedes, precedes, if_neg same, if_neg different]
      by_cases less : term.value first < term.value second
      · have notLess : ¬term.value second < term.value first := less.asymm
        cases term.descending <;> simp [less, notLess]
      · have greater : term.value second < term.value first :=
          lt_of_le_of_ne (not_lt.1 less) different
        cases term.descending <;> simp [less, greater]

theorem precedes_trans {third : α} (before : precedes terms first second = true)
    (after : precedes terms second third = true) :
    precedes terms first third = true := by
  induction terms with
  | nil => rfl
  | cons term terms ih =>
    rw [precedes] at before after ⊢
    by_cases left : term.value first = term.value second
    · rw [if_pos left] at before
      rw [left]
      by_cases right : term.value second = term.value third
      · rw [if_pos right] at after ⊢
        exact ih before after
      · rwa [if_neg right] at after ⊢
    · rw [if_neg left] at before
      by_cases right : term.value second = term.value third
      · rwa [← right, if_neg left]
      · rw [if_neg right] at after
        cases descending : term.descending with
        | false =>
          simp only [descending, Bool.bne_false, decide_eq_true_eq] at before after
          have less := before.trans after
          simp [less.ne, less]
        | true =>
          simp only [descending, Bool.bne_true, Bool.not_eq_true', decide_eq_false_iff_not,
            not_lt] at before after
          have less : term.value third < term.value first :=
            (lt_of_le_of_ne after fun equal => right equal.symm).trans_le before
          simp [less.ne', less.asymm]

omit terms

variable {terms : List (OrderTerm α κ)}

theorem value_eq_of_precedes (before : precedes terms first second = true)
    (after : precedes terms second first = true) :
    ∀ term ∈ terms, term.value first = term.value second := by
  induction terms with
  | nil => exact nofun
  | cons term terms ih =>
    rw [precedes] at before after
    by_cases same : term.value first = term.value second
    · rw [if_pos same] at before
      rw [if_pos same.symm] at after
      exact forall_mem_cons.2 ⟨same, ih before after⟩
    · have different : ¬term.value second = term.value first := fun equal => same equal.symm
      rw [if_neg same] at before
      rw [if_neg different] at after
      -- two different values are in order one way only
      rcases lt_or_gt_of_ne same with less | greater
      · have notLess : ¬term.value second < term.value first := less.asymm
        cases descending : term.descending <;> simp [descending, less, notLess] at before after
      · have notLess : ¬term.value first < term.value second := greater.asymm
        cases descending : term.descending <;> simp [descending, greater, notLess] at before after

theorem orderBy_perm (terms : List (OrderTerm α κ)) (rows : List α) :
    (orderBy terms rows).Perm rows :=
  perm_insertionSort _ rows

variable {rows : List α}

@[simp] theorem mem_orderBy {row : α} :
    row ∈ orderBy terms rows ↔ row ∈ rows :=
  mem_insertionSort _

theorem pairwise_orderBy (terms : List (OrderTerm α κ)) (rows : List α) :
    (orderBy terms rows).Pairwise fun first second => precedes terms first second = true := by
  have total : Std.Total fun first second => precedes terms first second = true :=
    ⟨precedes_total terms⟩
  have transitive : IsTrans α fun first second => precedes terms first second = true :=
    ⟨fun _ _ _ => precedes_trans terms⟩
  exact pairwise_insertionSort _ rows

theorem orderBy_of_pairwise
    (ordered : rows.Pairwise fun first second => precedes terms first second = true) :
    orderBy terms rows = rows :=
  ordered.insertionSort_eq

theorem map_orderBy {others : List (OrderTerm β κ)} {f : α → β}
    (agree : ∀ first ∈ rows, ∀ second ∈ rows,
      precedes terms first second = precedes others (f first) (f second)) :
    (orderBy terms rows).map f = orderBy others (rows.map f) := by
  apply map_insertionSort
  intro first firstMember second secondMember
  rw [agree first firstMember second secondMember]

def OrderTerm.comap (f : β → α) (term : OrderTerm α κ) : OrderTerm β κ where
  value row := term.value (f row)
  descending := term.descending

theorem precedes_comap (f : β → α) (terms : List (OrderTerm α κ)) (first second : β) :
    precedes (terms.map (OrderTerm.comap f)) first second = precedes terms (f first) (f second) := by
  induction terms with
  | nil => rfl
  | cons term terms ih =>
    rw [map_cons, precedes, precedes, ih]
    rfl

theorem orderBy_eq_of_perm {others : List α} (same : rows.Perm others)
    (distinguished : ∀ first ∈ rows, ∀ second ∈ rows, precedes terms first second = true →
      precedes terms second first = true → first = second) :
    orderBy terms rows = orderBy terms others := by
  apply List.Perm.eq_of_pairwise _ (pairwise_orderBy terms rows) (pairwise_orderBy terms others)
  · exact (orderBy_perm terms rows).trans (same.trans (orderBy_perm terms others).symm)
  · intro first second firstMember secondMember
    rw [mem_orderBy] at firstMember secondMember
    exact distinguished first firstMember second (same.mem_iff.2 secondMember)

theorem orderBy_filter
    (distinguished : ∀ first ∈ rows, ∀ second ∈ rows, precedes terms first second = true →
      precedes terms second first = true → first = second) (chosen : α → Bool) :
    orderBy terms (rows.filter chosen) = (orderBy terms rows).filter chosen := by
  apply List.Perm.eq_of_pairwise _ (pairwise_orderBy terms _)
    ((pairwise_orderBy terms rows).sublist filter_sublist)
  · exact (orderBy_perm terms _).trans ((orderBy_perm terms rows).filter chosen).symm
  · intro first second firstMember secondMember
    rw [mem_orderBy, mem_filter] at firstMember
    rw [mem_filter, mem_orderBy] at secondMember
    exact distinguished first firstMember.1 second secondMember.1

end Order

/-! ### Groups -/

section Groups

variable [DecidableEq ι]

/-- `GROUP BY key`: the rows of each value of the key. -/
def groupBy (key : α → ι) (rows : List α) : List (List α) :=
  (rows.map key).dedup.map fun value => rows.filter fun row => key row = value

theorem flatten_filter_perm (key : α → ι) (rows : List α) {values : List ι}
    (distinct : values.Nodup) :
    (values.map fun value => rows.filter fun row => key row = value).flatten.Perm
      (rows.filter fun row => key row ∈ values) := by
  induction values with
  | nil => simp
  | cons value others ih =>
    rw [nodup_cons] at distinct
    rw [map_cons, flatten_cons]
    have ofValue : (rows.filter fun row => key row ∈ value :: others).filter
        (fun row => key row = value) = rows.filter fun row => key row = value := by
      rw [filter_filter]
      apply filter_congr
      intro row _
      by_cases same : key row = value <;> simp [same]
    have ofOthers : (rows.filter fun row => key row ∈ value :: others).filter
        (fun row => !decide (key row = value)) = rows.filter fun row => key row ∈ others := by
      rw [filter_filter]
      apply filter_congr
      intro row _
      by_cases same : key row = value
      · simp [same, distinct.1]
      · simp [same]
    have split := filter_append_perm (fun row => decide (key row = value))
      (rows.filter fun row => key row ∈ value :: others)
    rw [ofValue, ofOthers] at split
    exact ((ih distinct.2).append_left _).trans split

theorem flatten_filter_perm_of_forall {key : α → ι} {rows : List α} {values : List ι}
    (distinct : values.Nodup) (covered : ∀ row ∈ rows, key row ∈ values) :
    (values.map fun value => rows.filter fun row => key row = value).flatten.Perm rows := by
  have all : (rows.filter fun row => key row ∈ values) = rows :=
    filter_eq_self.2 fun row member => decide_eq_true (covered row member)
  have perm := flatten_filter_perm key rows distinct
  rwa [all] at perm

theorem head?_filter_key {key : α → ι} {rows : List α} {value : ι} (isKey : value ∈ rows.map key) :
    (rows.filter fun row => key row = value).head?.map key = some value := by
  have ⟨row, inRows, same⟩ := mem_map.1 isKey
  have inGroup : row ∈ rows.filter fun row => key row = value :=
    mem_filter.2 ⟨inRows, decide_eq_true same⟩
  cases chosen : rows.filter fun row => key row = value with
  | nil =>
    rw [chosen] at inGroup
    exact nomatch inGroup
  | cons first rest =>
    have firstMember : first ∈ rows.filter fun row => key row = value := by
      rw [chosen]
      exact mem_cons_self
    exact congrArg some (of_decide_eq_true (mem_filter.1 firstMember).2)

theorem map_head?_groupBy (key : α → ι) (rows : List α) :
    (groupBy key rows).map (fun group => group.head?.map key) = (rows.map key).dedup.map some := by
  rw [groupBy, map_map]
  apply map_congr_left
  intro value isKey
  exact head?_filter_key (mem_dedup.1 isKey)

theorem eq_filter_of_mem_groupBy {key : α → ι} {rows group : List α}
    (member : group ∈ groupBy key rows) :
    group = rows.filter fun row => some (key row) = group.head?.map key := by
  obtain ⟨value, isKey, rfl⟩ := mem_map.1 member
  rw [head?_filter_key (mem_dedup.1 isKey)]
  simp only [Option.some.injEq]

end Groups

/-! ### Row numbers -/

section RowNumbers

variable [DecidableEq ι]

/-- Each row with its number in its partition; `seen` are the partitions of the rows before. -/
def numberRows (key : α → ι) : List ι → List α → List (α × Nat)
  | _, [] => []
  | seen, row :: rest =>
    (row, seen.count (key row) + 1) :: numberRows key (key row :: seen) rest

/-- `ROW_NUMBER() OVER (PARTITION BY key ORDER BY terms)`. -/
def rowNumbers [LinearOrder κ] (key : α → ι) (terms : List (OrderTerm α κ)) (rows : List α) :
    List (α × Nat) :=
  numberRows key [] (orderBy terms rows)

def numberedOne (rows : List (α × Nat)) : List α := (rows.filter fun row => row.2 == 1).map Prod.fst

theorem numberedOne_numberRows_cons (key : α → ι) (seen : List ι) (row : α) (rest : List α) :
    numberedOne (numberRows key seen (row :: rest)) =
      if key row ∈ seen then numberedOne (numberRows key (key row :: seen) rest)
      else row :: numberedOne (numberRows key (key row :: seen) rest) := by
  rw [numberRows, numberedOne, filter_cons]
  by_cases earlier : key row ∈ seen
  · have positive : seen.count (key row) ≠ 0 := (count_pos_iff.2 earlier).ne'
    simp only [if_pos earlier, beq_iff_eq, Nat.add_eq_right, if_neg positive]
    rfl
  · have zero : seen.count (key row) = 0 := count_eq_zero.2 earlier
    simp only [if_neg earlier, beq_iff_eq, Nat.add_eq_right, if_pos zero]
    rfl

theorem key_notMem_of_mem {key : α → ι} {row : α} : ∀ {rows : List α} {seen : List ι},
    row ∈ numberedOne (numberRows key seen rows) → key row ∉ seen
  | [], _ => nofun
  | first :: rest, seen => by
    rw [numberedOne_numberRows_cons]
    by_cases earlier : key first ∈ seen
    · rw [if_pos earlier]
      intro member inSeen
      exact key_notMem_of_mem member (mem_cons_of_mem _ inSeen)
    · rw [if_neg earlier, mem_cons]
      intro member inSeen
      rcases member with rfl | later
      · exact earlier inSeen
      · exact key_notMem_of_mem later (mem_cons_of_mem _ inSeen)

theorem nodup_keys_numberRows (key : α → ι) : ∀ (rows : List α) (seen : List ι),
    ((numberedOne (numberRows key seen rows)).map key).Nodup
  | [], _ => nodup_nil
  | first :: rest, seen => by
    have others := nodup_keys_numberRows key rest (key first :: seen)
    rw [numberedOne_numberRows_cons]
    by_cases earlier : key first ∈ seen
    · rwa [if_pos earlier]
    · rw [if_neg earlier, map_cons, nodup_cons]
      refine ⟨fun member => ?_, others⟩
      have ⟨row, found, same⟩ := mem_map.1 member
      exact key_notMem_of_mem found (same ▸ mem_cons_self)

theorem mem_numberRows {key : α → ι} {before : α → α → Prop} (refl : ∀ row, before row row)
    {row : α} : ∀ {rows : List α} {seen : List ι}, rows.Pairwise before →
      (∀ first ∈ rows, ∀ second ∈ rows, key first = key second → before first second →
        before second first → first = second) →
      (row ∈ numberedOne (numberRows key seen rows) ↔
        row ∈ rows ∧ key row ∉ seen ∧ ∀ other ∈ rows, key other = key row → before row other)
  | [], _, _, _ => ⟨nofun, fun found => nomatch found.1⟩
  | first :: rest, seen, ordered, distinguished => by
    rw [pairwise_cons] at ordered
    have among : ∀ a ∈ rest, ∀ b ∈ rest, key a = key b → before a b → before b a → a = b :=
      fun a inRest b alsoInRest =>
        distinguished a (mem_cons_of_mem _ inRest) b (mem_cons_of_mem _ alsoInRest)
    have later : row ∈ numberedOne (numberRows key (key first :: seen) rest) ↔
        row ∈ rest ∧ key row ∉ key first :: seen ∧
          ∀ other ∈ rest, key other = key row → before row other :=
      mem_numberRows refl ordered.2 among
    rw [numberedOne_numberRows_cons]
    by_cases samePartition : key row = key first
    · -- only the first of the partition is least in it
      have notLater : row ∉ numberedOne (numberRows key (key first :: seen) rest) := by
        intro member
        exact key_notMem_of_mem member (samePartition ▸ mem_cons_self)
      have isFirst : (row ∈ first :: rest ∧
          ∀ other ∈ first :: rest, key other = key row → before row other) ↔ row = first := by
        constructor
        · intro ⟨member, least⟩
          rcases mem_cons.1 member with same | inRest
          · exact same
          · exact distinguished row member first mem_cons_self samePartition
              (least first mem_cons_self samePartition.symm) (ordered.1 row inRest)
        · rintro rfl
          refine ⟨mem_cons_self, fun other member _ => ?_⟩
          rcases mem_cons.1 member with rfl | inRest
          · exact refl other
          · exact ordered.1 other inRest
      by_cases earlier : key first ∈ seen
      · rw [if_pos earlier]
        refine ⟨fun member => absurd member notLater, fun ⟨_, fresh, _⟩ => ?_⟩
        exact absurd (samePartition ▸ earlier) fresh
      · rw [if_neg earlier, mem_cons, or_iff_left notLater, ← isFirst, samePartition]
        exact ⟨fun ⟨member, least⟩ => ⟨member, earlier, least⟩,
          fun ⟨member, _, least⟩ => ⟨member, least⟩⟩
    · have notFirst : row ≠ first := fun same => samePartition (congrArg key same)
      have reduced : row ∈ numberedOne (numberRows key (key first :: seen) rest) ↔
          row ∈ first :: rest ∧ key row ∉ seen ∧
            ∀ other ∈ first :: rest, key other = key row → before row other := by
        have otherPartition : key first ≠ key row := fun same => samePartition same.symm
        rw [later, forall_mem_cons]
        simp only [mem_cons, notFirst, samePartition, otherPartition, false_or,
          false_implies, true_and]
      by_cases earlier : key first ∈ seen
      · rwa [if_pos earlier]
      · rwa [if_neg earlier, mem_cons, or_iff_right notFirst]

section Partitions

variable [LinearOrder κ] {key : α → ι} {terms : List (OrderTerm α κ)} {rows : List α}

theorem nodup_keys_rowNumbers : ((numberedOne (rowNumbers key terms rows)).map key).Nodup :=
  nodup_keys_numberRows key _ []

theorem mem_rowNumbers {row : α}
    (distinguished : ∀ first ∈ rows, ∀ second ∈ rows, key first = key second →
      precedes terms first second = true → precedes terms second first = true → first = second) :
    row ∈ numberedOne (rowNumbers key terms rows) ↔
      row ∈ rows ∧ ∀ other ∈ rows, key other = key row → precedes terms row other = true := by
  rw [rowNumbers, mem_numberRows (precedes_refl terms) (pairwise_orderBy terms rows)]
  · simp only [mem_orderBy, not_mem_nil, not_false_eq_true, true_and]
  · simpa only [mem_orderBy] using distinguished

theorem exists_numberedOne {row : α} (member : row ∈ rows)
    (distinguished : ∀ first ∈ rows, ∀ second ∈ rows, key first = key second →
      precedes terms first second = true → precedes terms second first = true → first = second) :
    ∃ first ∈ numberedOne (rowNumbers key terms rows), key first = key row := by
  have nonempty : (orderBy terms rows).find? (fun other => key other == key row) ≠ none := by
    intro missing
    have absent := find?_eq_none.1 missing row (mem_orderBy.2 member)
    simp at absent
  have ⟨first, found⟩ := Option.ne_none_iff_exists'.1 nonempty
  have ⟨samePartition, earlier, later, split, others⟩ := find?_eq_some_iff_append.1 found
  rw [beq_iff_eq] at samePartition
  refine ⟨first, (mem_rowNumbers distinguished).2 ⟨?_, fun other inRows same => ?_⟩, samePartition⟩
  · have ordered : first ∈ orderBy terms rows := split ▸ mem_append_cons_self
    exact mem_orderBy.1 ordered
  · have ordered := pairwise_orderBy terms rows
    have inOrder : other ∈ orderBy terms rows := mem_orderBy.2 inRows
    rw [split] at inOrder
    rw [split, pairwise_append, pairwise_cons] at ordered
    rcases mem_append.1 inOrder with inEarlier | inLater
    · have apart := others other inEarlier
      simp [same, samePartition] at apart
    · rcases mem_cons.1 inLater with rfl | after
      · exact precedes_refl terms other
      · exact ordered.2.1.1 other after

end Partitions

end RowNumbers

end Clepsydra.Library.Relational
