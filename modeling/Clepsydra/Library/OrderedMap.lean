import Mathlib

/-!
Owns: a finite map kept as its entries in strictly increasing key order, with the
two insertions of an ordered tree map: one that replaces and one that keeps what is
already there.
-/

namespace Clepsydra.Library

open List

structure OrderedMap (κ β : Type) [LinearOrder κ] where
  entries : List (κ × β)
  sorted : entries.Pairwise fun left right => left.1 < right.1

namespace OrderedMap

variable {κ β : Type} [LinearOrder κ]

def empty : OrderedMap κ β := ⟨[], .nil⟩

/-- Inserts an entry; an entry already at the key is changed by `merge`. -/
def insertWith (merge : β → β) (key : κ) (value : β) : List (κ × β) → List (κ × β)
  | [] => [(key, value)]
  | (other, present) :: rest =>
    if key < other then (key, value) :: (other, present) :: rest
    else if key = other then (other, merge present) :: rest
    else (other, present) :: insertWith merge key value rest

variable {key : κ} {value : β}

theorem mem_keys_insertWith {merge : β → β} {other : κ} {entries : List (κ × β)} :
    other ∈ (insertWith merge key value entries).map Prod.fst
      ↔ other = key ∨ other ∈ entries.map Prod.fst := by
  induction entries with
  | nil => simp [insertWith]
  | cons head tail ih =>
    have ⟨first, present⟩ := head
    rw [insertWith]
    split_ifs with below same
    · simp
    · subst same
      simp
    · rw [map_cons, mem_cons, ih, map_cons, mem_cons]
      tauto

theorem sorted_insertWith {merge : β → β} {entries : List (κ × β)}
    (sorted : entries.Pairwise fun left right => left.1 < right.1) :
    (insertWith merge key value entries).Pairwise fun left right => left.1 < right.1 := by
  induction entries with
  | nil => exact pairwise_singleton _ _
  | cons head tail ih =>
    have ⟨first, present⟩ := head
    have ⟨aboveTail, sortedTail⟩ := pairwise_cons.1 sorted
    rw [insertWith]
    split_ifs with below same
    · refine pairwise_cons.2 ⟨fun entry member => ?_, sorted⟩
      rcases mem_cons.1 member with isHead | inTail
      · rw [isHead]
        exact below
      · exact lt_trans below (aboveTail entry inTail)
    · exact pairwise_cons.2 ⟨aboveTail, sortedTail⟩
    · have above : first < key := lt_of_le_of_ne (not_lt.1 below) (Ne.symm same)
      refine pairwise_cons.2 ⟨fun entry member => ?_, ih sortedTail⟩
      have keyMember : entry.1 = key ∨ entry.1 ∈ tail.map Prod.fst :=
        mem_keys_insertWith.1 (mem_map_of_mem member)
      rcases keyMember with isKey | inTail
      · rw [isKey]
        exact above
      · have ⟨other, otherMember, sameKey⟩ := mem_map.1 inTail
        rw [← sameKey]
        exact aboveTail other otherMember

/-- `insert`: the new value replaces an old one. -/
def insert (map : OrderedMap κ β) (key : κ) (value : β) : OrderedMap κ β :=
  ⟨insertWith (fun _ => value) key value map.entries, sorted_insertWith map.sorted⟩

/-- `entry(key).or_insert(value)`: an old value stays. -/
def orInsert (map : OrderedMap κ β) (key : κ) (value : β) : OrderedMap κ β :=
  ⟨insertWith id key value map.entries, sorted_insertWith map.sorted⟩

/-! ### Membership -/

variable {map : OrderedMap κ β}

theorem mem_insertWith {merge : β → β} {entries : List (κ × β)}
    (sorted : entries.Pairwise fun left right => left.1 < right.1) {entry : κ × β} :
    entry ∈ insertWith merge key value entries ↔ (entry.1 ≠ key ∧ entry ∈ entries)
        ∨ (entry.1 = key ∧ ((∃ present, (key, present) ∈ entries ∧ entry.2 = merge present)
          ∨ (key ∉ entries.map Prod.fst ∧ entry.2 = value))) := by
  obtain ⟨entryKey, entryValue⟩ := entry
  induction entries with
  | nil => simp [insertWith]
  | cons head tail ih =>
    obtain ⟨first, present⟩ := head
    obtain ⟨aboveTail, sortedTail⟩ := pairwise_cons.1 sorted
    have notInTail : ∀ {k : κ} {v : β}, k ≤ first → (k, v) ∉ tail := by
      intro k v le member
      exact absurd (aboveTail _ member) (not_lt.2 le)
    rw [insertWith]
    split_ifs with below same
    · have absent : key ∉ ((first, present) :: tail).map Prod.fst := by
        intro member
        obtain ⟨other, otherMember, sameKey⟩ := mem_map.1 member
        obtain ⟨otherKey, otherValue⟩ := other
        subst sameKey
        rcases mem_cons.1 otherMember with isHead | inTail
        · exact absurd below (by simp [(Prod.mk.inj isHead).1])
        · exact notInTail below.le inTail
      constructor
      · intro member
        rcases mem_cons.1 member with isNew | old
        · obtain ⟨rfl, rfl⟩ := Prod.mk.inj isNew
          exact .inr ⟨rfl, .inr ⟨absent, rfl⟩⟩
        · refine .inl ⟨fun isKey => ?_, old⟩
          exact absent (isKey ▸ mem_map_of_mem old)
      · rintro (⟨_, old⟩ | ⟨isKey, ⟨other, member, _⟩ | ⟨_, isValue⟩⟩)
        · exact mem_cons_of_mem _ old
        · exact absurd (mem_map_of_mem member) absent
        · simp only at isKey isValue
          rw [isKey, isValue]
          exact mem_cons_self
    · subst same
      have absentTail : ∀ v, (key, v) ∉ tail := fun v => notInTail le_rfl
      simp only [mem_cons, Prod.mk.injEq, map_cons, not_or, not_true_eq_false,
        false_and, or_false, ne_eq]
      constructor
      · rintro (⟨rfl, rfl⟩ | old)
        · exact .inr ⟨rfl, present, .inl ⟨trivial, rfl⟩, rfl⟩
        · refine .inl ⟨fun isKey => absentTail entryValue (isKey ▸ old), .inr old⟩
      · rintro (⟨different, ⟨isKey, _⟩ | old⟩ | ⟨rfl, other, ⟨_, rfl⟩ | old, isValue⟩)
        · exact absurd isKey different
        · exact .inr old
        · exact .inl ⟨rfl, isValue⟩
        · exact absurd old (absentTail other)
    · have step := ih sortedTail
      simp only [mem_cons, Prod.mk.injEq, map_cons, not_or, ne_eq] at step ⊢
      rw [step]
      have distinct : key ≠ first := same
      constructor
      · rintro (⟨rfl, rfl⟩ | ⟨different, old⟩ | ⟨rfl, ⟨other, member, isValue⟩ | ⟨absent, rfl⟩⟩)
        · exact .inl ⟨Ne.symm distinct, .inl ⟨rfl, rfl⟩⟩
        · exact .inl ⟨different, .inr old⟩
        · exact .inr ⟨rfl, .inl ⟨other, .inr member, isValue⟩⟩
        · exact .inr ⟨rfl, .inr ⟨⟨distinct, absent⟩, rfl⟩⟩
      · rintro (⟨different, ⟨rfl, rfl⟩ | old⟩
          | ⟨rfl, ⟨other, ⟨isFirst, _⟩ | member, isValue⟩ | ⟨⟨_, absent⟩, rfl⟩⟩)
        · exact .inl ⟨rfl, rfl⟩
        · exact .inr (.inl ⟨different, old⟩)
        · exact absurd isFirst distinct
        · exact .inr (.inr ⟨rfl, .inl ⟨other, member, isValue⟩⟩)
        · exact .inr (.inr ⟨rfl, .inr ⟨absent, rfl⟩⟩)

theorem mem_insert {entry : κ × β} : entry ∈ (map.insert key value).entries
      ↔ (entry.1 ≠ key ∧ entry ∈ map.entries) ∨ entry = (key, value) := by
  unfold insert
  rw [mem_insertWith map.sorted]
  have ⟨entryKey, entryValue⟩ := entry
  constructor
  · rintro (old | ⟨isKey, ⟨_, _, isValue⟩ | ⟨_, isValue⟩⟩)
    · exact .inl old
    · exact .inr (Prod.ext isKey isValue)
    · exact .inr (Prod.ext isKey isValue)
  · rintro (old | isNew)
    · exact .inl old
    · obtain ⟨rfl, rfl⟩ := Prod.mk.inj isNew
      by_cases present : entryKey ∈ map.entries.map Prod.fst
      · have ⟨⟨other, old⟩, member, sameKey⟩ := mem_map.1 present
        simp only at sameKey
        subst sameKey
        exact .inr ⟨rfl, .inl ⟨old, member, rfl⟩⟩
      · exact .inr ⟨rfl, .inr ⟨present, rfl⟩⟩

theorem mem_orInsert {entry : κ × β} : entry ∈ (map.orInsert key value).entries
      ↔ entry ∈ map.entries ∨ (entry = (key, value) ∧ key ∉ map.entries.map Prod.fst) := by
  unfold orInsert
  rw [mem_insertWith map.sorted]
  have ⟨entryKey, entryValue⟩ := entry
  constructor
  · rintro (⟨_, old⟩ | ⟨isKey, ⟨present, member, isValue⟩ | ⟨absent, isValue⟩⟩)
    · exact .inl old
    · simp only [id] at isKey isValue
      subst isKey isValue
      exact .inl member
    · exact .inr ⟨Prod.ext isKey isValue, absent⟩
  · rintro (old | ⟨isNew, absent⟩)
    · by_cases isKey : entryKey = key
      · subst isKey
        exact .inr ⟨rfl, .inl ⟨entryValue, old, rfl⟩⟩
      · exact .inl ⟨isKey, old⟩
    · obtain ⟨rfl, rfl⟩ := Prod.mk.inj isNew
      exact .inr ⟨rfl, .inr ⟨absent, rfl⟩⟩

/-! ### Lookup -/

theorem nodup_keys (map : OrderedMap κ β) : (map.entries.map Prod.fst).Nodup :=
  List.Pairwise.map Prod.fst (fun _ _ below => below.ne) map.sorted

theorem eq_of_same_key {first second : κ × β} (isFirst : first ∈ map.entries)
    (isSecond : second ∈ map.entries) (sameKey : first.1 = second.1) : first = second :=
  inj_on_of_nodup_map map.nodup_keys isFirst isSecond sameKey

/-- `get`. -/
def get (map : OrderedMap κ β) (key : κ) : Option β :=
  (map.entries.find? fun entry => decide (entry.1 = key)).map Prod.snd

theorem get_eq_some_iff : map.get key = some value ↔ (key, value) ∈ map.entries := by
  unfold get
  rw [Option.map_eq_some_iff]
  constructor
  · rintro ⟨entry, found, rfl⟩
    have isKey : entry.1 = key := by simpa using find?_some found
    exact isKey ▸ mem_of_find?_eq_some found
  · intro member
    cases found : map.entries.find? fun entry => decide (entry.1 = key) with
    | none =>
      have absent := find?_eq_none.1 found (key, value) member
      exact absurd (decide_eq_true rfl) absent
    | some entry =>
      have isKey : entry.1 = key := by simpa using find?_some found
      exact ⟨entry, rfl,
        congrArg Prod.snd (eq_of_same_key (mem_of_find?_eq_some found) member isKey)⟩

@[simp] theorem get_empty (key : κ) : (empty : OrderedMap κ β).get key = none := rfl

theorem get_insert (map : OrderedMap κ β) (key : κ) (value : β) (other : κ) :
    (map.insert key value).get other = if other = key then some value else map.get other := by
  apply Option.ext
  intro found
  rw [get_eq_some_iff, mem_insert]
  by_cases isKey : other = key
  · rw [if_pos isKey]
    simp [isKey, eq_comm]
  · rw [if_neg isKey, get_eq_some_iff]
    simp [isKey]

end OrderedMap

end Clepsydra.Library
