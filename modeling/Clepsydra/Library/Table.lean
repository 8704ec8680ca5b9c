import Mathlib

/-!
Owns: a database table with a primary key, as its rows in insertion order, with
the statements that read and change rows by key.
-/

namespace Clepsydra.Library

open List

structure Table (κ ρ : Type) (key : ρ → κ) where
  rows : List ρ
  distinct : (rows.map key).Nodup

namespace Table

variable {κ ρ : Type} {key : ρ → κ} [DecidableEq κ]

omit [DecidableEq κ] in
theorem eq_of_rows {left right : Table κ ρ key} (same : left.rows = right.rows) : left = right := by
  cases left
  cases right
  cases same
  rfl

def empty : Table κ ρ key := ⟨[], nodup_nil⟩

def get (table : Table κ ρ key) (k : κ) : Option ρ := table.rows.find? fun row => key row = k

/-- `INSERT OR IGNORE`. -/
def insertOrIgnore (table : Table κ ρ key) (row : ρ) : Table κ ρ key :=
  if absent : key row ∉ table.rows.map key then
    ⟨table.rows ++ [row], by
      rw [map_append, map_singleton]
      exact table.distinct.append (nodup_singleton _) (by simpa [disjoint_singleton] using absent)⟩
  else
    table

/-- `UPDATE … WHERE key = k`, for a change that keeps the key. -/
def modify (table : Table κ ρ key) (k : κ) (change : ρ → ρ)
    (keeps : ∀ row, key (change row) = key row) : Table κ ρ key where
  rows := table.rows.map fun row => if key row = k then change row else row
  distinct := by
    have same : (table.rows.map fun row => if key row = k then change row else row).map key
        = table.rows.map key := by
      rw [map_map]
      apply map_congr_left
      intro row _
      by_cases here : key row = k
      · simp [here, keeps]
      · simp [here]
    rw [same]
    exact table.distinct

/-- `DELETE … WHERE key = k`. -/
def erase (table : Table κ ρ key) (k : κ) : Table κ ρ key where
  rows := table.rows.filter fun row => key row ≠ k
  distinct := (table.distinct.sublist (filter_sublist.map key))

/-! ### Reading after a change -/

variable {table : Table κ ρ key}

theorem key_of_get {k : κ} {row : ρ} (found : table.get k = some row) :
    key row = k := by
  simpa using find?_some found

theorem get_eq_none_iff {k : κ} :
    table.get k = none ↔ k ∉ table.rows.map key := by
  simp [get, find?_eq_none]

theorem mem_of_get {k : κ} {row : ρ} (found : table.get k = some row) :
    row ∈ table.rows :=
  mem_of_find?_eq_some found

theorem get_of_mem {row : ρ} (member : row ∈ table.rows) :
    table.get (key row) = some row := by
  cases found : table.get (key row) with
  | none =>
    exact absurd (mem_map_of_mem member) (get_eq_none_iff.1 found)
  | some other =>
    have sameKey : key other = key row := key_of_get found
    exact congrArg some (inj_on_of_nodup_map table.distinct (mem_of_get found) member sameKey)

@[simp] theorem get_empty (k : κ) : (empty : Table κ ρ key).get k = none := rfl

theorem get_insertOrIgnore (table : Table κ ρ key) (row : ρ) (k : κ) :
    (table.insertOrIgnore row).get k
      = if key row = k ∧ table.get k = none then some row else table.get k := by
  unfold insertOrIgnore
  by_cases absent : key row ∉ table.rows.map key
  · rw [dif_pos absent]
    by_cases here : key row = k
    · have missing : table.get k = none := get_eq_none_iff.2 (here ▸ absent)
      rw [if_pos ⟨here, missing⟩]
      unfold get at missing ⊢
      rw [find?_append, missing]
      simp [here]
    · rw [if_neg (fun both => here both.1)]
      unfold get
      rw [find?_append]
      simp [here]
  · rw [dif_neg absent, if_neg]
    rintro ⟨here, missing⟩
    exact absent (here ▸ get_eq_none_iff.1 missing)

theorem get_modify (table : Table κ ρ key) (k : κ) (change : ρ → ρ)
    (keeps : ∀ row, key (change row) = key row) (k' : κ) :
    (table.modify k change keeps).get k'
      = if k' = k then (table.get k').map change else table.get k' := by
  have tested : (fun row => decide (key row = k')) ∘ (fun row => if key row = k then change row else row)
      = fun row => decide (key row = k') := by
    funext row
    by_cases here : key row = k
    · simp [here, keeps]
    · simp [here]
  unfold get modify
  rw [find?_map, tested]
  cases found : table.rows.find? (fun row => decide (key row = k')) with
  | none => split_ifs <;> rfl
  | some row =>
    have atKey : key row = k' := by simpa using find?_some found
    by_cases same : k' = k
    · simp [same, atKey]
    · simp [same, atKey]

theorem get_erase (table : Table κ ρ key) (k k' : κ) :
    (table.erase k).get k' = if k' = k then none else table.get k' := by
  unfold get erase
  rw [find?_filter]
  by_cases same : k' = k
  · rw [if_pos same, find?_eq_none]
    intro row _
    simp [same]
  · rw [if_neg same]
    congr 1
    funext row
    by_cases here : key row = k'
    · simp [here, same]
    · simp [here]

end Table

end Clepsydra.Library
