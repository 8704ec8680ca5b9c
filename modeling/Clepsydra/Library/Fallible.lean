import Mathlib

/-!
Owns: inversion of `Except` and `Option` computations, so that a successful run can be taken
apart without unfolding the monad.
-/

namespace Clepsydra.Library.Fallible

open List

variable {ε α β : Type} {first : Except ε α} {next : α → Except ε β}

theorem of_bind_ok {result : β} (success : (first >>= next) = .ok result) :
    ∃ value, first = .ok value ∧ next value = .ok result := by
  cases first with
  | error failure => cases success
  | ok value => exact ⟨value, rfl, success⟩

theorem bind_ok_iff {result : β} :
    (first >>= next) = .ok result ↔ ∃ value, first = .ok value ∧ next value = .ok result := by
  refine ⟨of_bind_ok, ?_⟩
  rintro ⟨value, rfl, success⟩
  exact success

theorem bind_isOk_iff (succeeds : ∀ value, ∃ result, next value = .ok result) :
    (∃ result, (first >>= next) = .ok result) ↔ ∃ value, first = .ok value := by
  constructor
  · rintro ⟨result, success⟩
    obtain ⟨value, isFirst, -⟩ := of_bind_ok success
    exact ⟨value, isFirst⟩
  · rintro ⟨value, rfl⟩
    exact succeeds value

def ensure (condition : Bool) (failure : ε) : Except ε Unit :=
  if condition then .ok () else .error failure

@[simp] theorem ensure_ok_iff {condition : Bool} {failure : ε} {done : Unit} :
    ensure condition failure = .ok done ↔ condition = true := by
  cases condition <;> simp [ensure]

/-- `Option::ok_or`. -/
def okOr (failure : ε) : Option α → Except ε α
  | some value => .ok value
  | none => .error failure

@[simp] theorem okOr_ok_iff {failure : ε} {found : Option α} {value : α} :
    okOr failure found = .ok value ↔ found = some value := by
  cases found <;> simp [okOr]

theorem mapError_ok_iff {φ : Type} {change : ε → φ} {value : α} :
    first.mapError change = .ok value ↔ first = .ok value := by
  cases first <;> simp [Except.mapError]

theorem bind_of_eq_ok {value : α} (success : first = .ok value) : first >>= next = next value := by
  rw [success]
  rfl

theorem of_map_ok {change : α → β} {result : β} (success : first.map change = .ok result) :
    ∃ value, first = .ok value ∧ change value = result := by
  cases first with
  | error failure => cases success
  | ok value => exact ⟨value, rfl, Except.ok.inj success⟩

variable {f : α → Except ε β}

theorem mapM_of_forall {items : List α} (each : ∀ item ∈ items, ∃ result, f item = .ok result) :
    ∃ results, items.mapM f = .ok results := by
  induction items with
  | nil => exact ⟨[], rfl⟩
  | cons item items ih =>
    have ⟨head, success⟩ := each item mem_cons_self
    have ⟨tail, successes⟩ := ih fun other among => each other (mem_cons_of_mem _ among)
    refine ⟨head :: tail, ?_⟩
    rw [mapM_cons, success, successes]
    rfl

theorem mapM_eq_ok_map {g : α → β} {items : List α} (each : ∀ item ∈ items, f item = .ok (g item)) :
    items.mapM f = .ok (items.map g) := by
  induction items with
  | nil => rfl
  | cons item items ih =>
    rw [forall_mem_cons] at each
    rw [mapM_cons, each.1, ih each.2]
    rfl

theorem forall₂_of_mapM_eq_some {f : α → Option β} :
    ∀ {items : List α} {results : List β}, items.mapM f = some results →
      List.Forall₂ (fun item result => f item = some result) items results := by
  intro items
  induction items with
  | nil =>
    intro results mapped
    cases mapped
    exact List.Forall₂.nil
  | cons item items ih =>
    intro results mapped
    rw [mapM_cons] at mapped
    have ⟨result, first, rest⟩ := Option.bind_eq_some_iff.1 mapped
    have ⟨others, mappedRest, same⟩ := Option.bind_eq_some_iff.1 rest
    cases same
    exact List.Forall₂.cons first (ih mappedRest)

theorem forall₂_of_mapM_eq_ok :
    ∀ {items : List α} {results : List β}, items.mapM f = .ok results →
      List.Forall₂ (fun item result => f item = .ok result) items results := by
  intro items
  induction items with
  | nil =>
    intro results mapped
    cases mapped
    exact List.Forall₂.nil
  | cons item items ih =>
    intro results mapped
    rw [mapM_cons] at mapped
    have ⟨result, first, rest⟩ := of_bind_ok mapped
    have ⟨others, mappedRest, same⟩ := of_bind_ok rest
    cases same
    exact List.Forall₂.cons first (ih mappedRest)

theorem exists_of_forall₂ {R : α → β → Prop} {items : List α} {results : List β}
    (related : List.Forall₂ R items results) :
    ∀ item ∈ items, ∃ result ∈ results, R item result := by
  induction related with
  | nil => exact nofun
  | cons first _ ih =>
    rw [forall_mem_cons]
    refine ⟨⟨_, mem_cons_self, first⟩, fun item member => ?_⟩
    have ⟨result, found, holds⟩ := ih item member
    exact ⟨result, mem_cons_of_mem _ found, holds⟩

end Clepsydra.Library.Fallible
