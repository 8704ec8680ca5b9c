import Clepsydra.Library.LockTable
import Clepsydra.Vault.Canonical
import Clepsydra.Vault.Path

/-!
Owns: the locks of a mutation: its paths and items, exclusive, and their folders, shared.

Proves: requests exclude each other exactly when they overlap, and no interleaving leads to a cycle
of waiting tasks. The mutation gate excludes no request.
-/

namespace Clepsydra.Mutate

open Library Library.LockTable Vault

/-! ### Lock keys -/

inductive MutationLockKey where
  | path (path : VaultPath)
  | rubbishItem (item : Uuid)
deriving DecidableEq

namespace MutationLockKey

def rank : MutationLockKey → String ⊕ₗ List (Fin 16)
  | .path target => toLex (.inl target.asStr)
  | .rubbishItem item => toLex (.inr item.digits)

theorem rank_injective : Function.Injective rank := by
  intro left right same
  cases left with
  | path leftPath =>
    cases right with
    | path rightPath =>
      have texts : leftPath.asStr = rightPath.asStr := Sum.inl.inj (toLex.injective same)
      rw [VaultPath.asStr_injective texts]
    | rubbishItem rightItem => cases same
  | rubbishItem leftItem =>
    cases right with
    | path rightPath => cases same
    | rubbishItem rightItem =>
      have digits : leftItem.digits = rightItem.digits := Sum.inr.inj (toLex.injective same)
      cases leftItem
      cases rightItem
      cases digits
      rfl

instance : LinearOrder MutationLockKey := LinearOrder.lift' rank rank_injective

end MutationLockKey

open MutationLockKey

/-! ### Requests -/

/-- The arguments of `lock_resources`; `lock_paths` passes no items. -/
structure Resources where
  paths : List VaultPath
  rubbishItems : List Uuid

abbrev Requests := OrderedMap MutationLockKey Bool

def requestAncestors (requests : Requests) (path : VaultPath) : Requests :=
  path.ancestors.foldl (fun map ancestor => map.orInsert (.path ancestor) false) requests

def requestPath (requests : Requests) (path : VaultPath) : Requests :=
  (requestAncestors requests path).insert (.path path) true

def requestItem (requests : Requests) (item : Uuid) : Requests :=
  requests.insert (.rubbishItem item) true

/-- The locks `lock_resources_excluded` asks for: the flag says exclusive. -/
def lockRequests (resources : Resources) : Requests := resources.rubbishItems.foldl requestItem
    (resources.paths.foldl requestPath OrderedMap.empty)

/-! ### What is asked for -/

variable {requests : Requests} {targets above : MutationLockKey → Prop}

theorem mem_requestAncestors {path : VaultPath} {key : MutationLockKey} {write : Bool} :
    (key, write) ∈ (requestAncestors requests path).entries ↔ (key, write) ∈ requests.entries
        ∨ (write = false ∧ key ∉ requests.entries.map Prod.fst
          ∧ ∃ ancestor ∈ path.ancestors, key = .path ancestor) := by
  unfold requestAncestors
  generalize path.ancestors = ancestors
  induction ancestors generalizing requests with
  | nil => simp
  | cons ancestor rest ih =>
    rw [List.foldl_cons, ih, OrderedMap.mem_orInsert]
    have keys : key ∈ (requests.orInsert (.path ancestor) false).entries.map Prod.fst
        ↔ key = .path ancestor ∨ key ∈ requests.entries.map Prod.fst :=
      OrderedMap.mem_keys_insertWith
    rw [keys]
    constructor
    · rintro ((old | ⟨isNew, absent⟩) | ⟨shared, absent, other, inRest, isOther⟩)
      · exact .inl old
      · have ⟨isKey, shared⟩ := Prod.mk.inj isNew
        exact .inr ⟨shared, isKey ▸ absent, ancestor, List.mem_cons_self, isKey⟩
      · rw [not_or] at absent
        exact .inr ⟨shared, absent.2, other, List.mem_cons_of_mem _ inRest, isOther⟩
    · rintro (old | ⟨shared, absent, other, member, isOther⟩)
      · exact .inl (.inl old)
      · by_cases isFirst : key = .path ancestor
        · exact .inl (.inr ⟨Prod.ext isFirst shared, isFirst ▸ absent⟩)
        · rcases List.mem_cons.1 member with isAncestor | inRest
          · exact absurd (isAncestor ▸ isOther) isFirst
          · exact .inr ⟨shared, not_or.2 ⟨isFirst, absent⟩, other, inRest, isOther⟩

/-- The exclusive keys are the targets, and each shared one is an ancestor. -/
structure Describes (requests : Requests) (targets : MutationLockKey → Prop)
    (above : MutationLockKey → Prop) : Prop where
  exclusive : ∀ key, (key, true) ∈ requests.entries ↔ targets key
  shared : ∀ key, (key, false) ∈ requests.entries ↔ above key ∧ ¬targets key

variable (describes : Describes requests targets above)

include describes

theorem Describes.keys (key : MutationLockKey) :
    key ∈ requests.entries.map Prod.fst ↔ targets key ∨ above key := by
  rw [List.mem_map]
  constructor
  · intro present
    have ⟨⟨other, write⟩, member, same⟩ := present
    simp only at same
    subst same
    cases write with
    | true => exact .inl ((describes.exclusive other).1 member)
    | false => exact .inr ((describes.shared other).1 member).1
  · intro meant
    by_cases isTarget : targets key
    · exact ⟨(key, true), (describes.exclusive key).2 isTarget, rfl⟩
    · have isAbove : above key := meant.resolve_left isTarget
      exact ⟨(key, false), (describes.shared key).2 ⟨isAbove, isTarget⟩, rfl⟩

theorem Describes.insert (target : MutationLockKey) :
    Describes (requests.insert target true) (fun key => targets key ∨ key = target) above where
  exclusive := by
    intro key
    rw [OrderedMap.mem_insert, describes.exclusive]
    by_cases isTarget : key = target <;> simp [isTarget]
  shared := by
    intro key
    rw [OrderedMap.mem_insert, describes.shared]
    by_cases isTarget : key = target <;> simp [isTarget]

theorem Describes.requestPath (path : VaultPath) :
    Describes (requestPath requests path) (fun key => targets key ∨ key = .path path)
      (fun key => above key ∨ ∃ ancestor ∈ path.ancestors, key = .path ancestor) := by
  refine Describes.insert ?_ (.path path)
  constructor
  · intro key
    rw [mem_requestAncestors, describes.exclusive]
    simp
  · intro key
    rw [mem_requestAncestors, describes.shared, describes.keys]
    by_cases isTarget : targets key
    · simp [isTarget]
    · by_cases isAbove : above key <;> simp [isTarget, isAbove]

theorem Describes.requestPaths (paths : List VaultPath) :
    Describes (paths.foldl Mutate.requestPath requests)
      (fun key => targets key ∨ ∃ path ∈ paths, key = .path path)
      (fun key => above key ∨ ∃ path ∈ paths, ∃ ancestor ∈ path.ancestors, key = .path ancestor) := by
  induction paths generalizing requests targets above with
  | nil => simpa using describes
  | cons path rest ih =>
    have step := ih (describes.requestPath path)
    simpa [or_assoc] using step

theorem Describes.requestItems (items : List Uuid) :
    Describes (items.foldl requestItem requests)
      (fun key => targets key ∨ ∃ item ∈ items, key = .rubbishItem item) above := by
  induction items generalizing requests targets with
  | nil => simpa using describes
  | cons item rest ih =>
    have step := ih (describes.insert (.rubbishItem item))
    simpa [or_assoc, requestItem] using step

omit describes

def Resources.Targets (resources : Resources) (key : MutationLockKey) : Prop :=
  (∃ path ∈ resources.paths, key = .path path) ∨ ∃ item ∈ resources.rubbishItems, key = .rubbishItem item

def Resources.Above (resources : Resources) (key : MutationLockKey) : Prop :=
  ∃ path ∈ resources.paths, ∃ ancestor ∈ path.ancestors, key = .path ancestor

theorem describes_lockRequests (resources : Resources) :
    Describes (lockRequests resources) resources.Targets resources.Above := by
  have none : Describes OrderedMap.empty (fun _ => False) (fun _ => False) :=
    ⟨by simp [OrderedMap.empty], by simp [OrderedMap.empty]⟩
  have asked := (none.requestPaths resources.paths).requestItems resources.rubbishItems
  simp only [false_or] at asked
  exact asked

/-! ### Overlap -/

/-- Two requests overlap: they share an item, or a path of one is, or is above, a path of the other. -/
def Overlap (left right : Resources) : Prop :=
  (∃ item ∈ left.rubbishItems, item ∈ right.rubbishItems)
    ∨ ∃ leftPath ∈ left.paths, ∃ rightPath ∈ right.paths,
        leftPath = rightPath ∨ leftPath.IsAncestor rightPath ∨ rightPath.IsAncestor leftPath

theorem Overlap.symm {left right : Resources} (overlap : Overlap left right) :
    Overlap right left := by
  rcases overlap with ⟨item, inLeft, inRight⟩ | ⟨leftPath, inLeft, rightPath, inRight, related⟩
  · exact .inl ⟨item, inRight, inLeft⟩
  · refine .inr ⟨rightPath, inRight, leftPath, inLeft, ?_⟩
    rcases related with same | above | above
    · exact .inl same.symm
    · exact .inr (.inr above)
    · exact .inr (.inl above)

theorem overlap_of_target {left right : Resources} {key : MutationLockKey}
    (target : left.Targets key) (meant : right.Targets key ∨ right.Above key) :
    Overlap left right := by
  rcases target with ⟨path, member, isPath⟩ | ⟨item, member, isItem⟩
  · rw [isPath] at meant
    rcases meant with (⟨other, inRight, same⟩ | ⟨_, _, same⟩)
      | ⟨other, inRight, ancestor, above, same⟩
    · exact .inr ⟨path, member, other, inRight, .inl (MutationLockKey.path.inj same)⟩
    · cases same
    · cases same
      exact .inr ⟨path, member, other, inRight, .inr (.inl (VaultPath.mem_ancestors.1 above))⟩
  · rw [isItem] at meant
    rcases meant with (⟨_, _, same⟩ | ⟨other, inRight, same⟩) | ⟨_, _, _, _, same⟩
    · cases same
    · cases same
      exact .inl ⟨item, member, inRight⟩
    · cases same

theorem exists_target_of_overlap {left right : Resources} (overlap : Overlap left right) :
    (∃ key, left.Targets key ∧ (right.Targets key ∨ right.Above key))
      ∨ ∃ key, right.Targets key ∧ (left.Targets key ∨ left.Above key) := by
  rcases overlap with ⟨item, inLeft, inRight⟩ | ⟨leftPath, inLeft, rightPath, inRight, related⟩
  · exact .inl ⟨.rubbishItem item, .inr ⟨item, inLeft, rfl⟩, .inl (.inr ⟨item, inRight, rfl⟩)⟩
  · have leftTarget : left.Targets (.path leftPath) := .inl ⟨leftPath, inLeft, rfl⟩
    have rightTarget : right.Targets (.path rightPath) := .inl ⟨rightPath, inRight, rfl⟩
    rcases related with same | above | above
    · exact .inl ⟨.path leftPath, leftTarget, .inl (same ▸ rightTarget)⟩
    · exact .inl ⟨.path leftPath, leftTarget,
        .inr ⟨rightPath, inRight, leftPath, VaultPath.mem_ancestors.2 above, rfl⟩⟩
    · exact .inr ⟨.path rightPath, rightTarget,
        .inr ⟨leftPath, inLeft, rightPath, VaultPath.mem_ancestors.2 above, rfl⟩⟩

theorem conflicts_iff_overlap (left right : Resources) :
    Conflicts (lockRequests left) (lockRequests right) ↔ Overlap left right := by
  have describesLeft := describes_lockRequests left
  have describesRight := describes_lockRequests right
  constructor
  · intro conflict
    have ⟨key, leftWrite, rightWrite, inLeft, inRight, writes⟩ := conflict
    have leftKey := (describesLeft.keys key).1 (List.mem_map_of_mem inLeft)
    have rightKey := (describesRight.keys key).1 (List.mem_map_of_mem inRight)
    rcases writes with isTrue | isTrue
    · rw [isTrue, describesLeft.exclusive] at inLeft
      exact overlap_of_target inLeft rightKey
    · rw [isTrue, describesRight.exclusive] at inRight
      exact (overlap_of_target inRight leftKey).symm
  · intro overlap
    rcases exists_target_of_overlap overlap with ⟨key, target, meant⟩ | ⟨key, target, meant⟩
    · have ⟨⟨other, write⟩, member, same⟩ := List.mem_map.1 ((describesRight.keys key).2 meant)
      cases same
      exact ⟨other, true, write, (describesLeft.exclusive other).2 target, member, .inl rfl⟩
    · have ⟨⟨other, write⟩, member, same⟩ := List.mem_map.1 ((describesLeft.keys key).2 meant)
      cases same
      exact ⟨other, write, true, member, (describesRight.exclusive other).2 target, .inr rfl⟩

/-! ### Exclusion and progress -/

variable {τ : Type} [DecidableEq τ]

/-- A task holds the guard of `lock_resources`. -/
def HoldsGuard (state : State τ MutationLockKey) (task : τ) (resources : Resources) : Prop :=
  state.Holds task (lockRequests resources)

/-- Any interleaving of such requests, acquisitions, releases and purges. -/
def LockingReachable (state : State τ MutationLockKey) : Prop :=
  Reachable (fun request => ∃ resources, request = lockRequests resources) state

/-- **Two requests exclude each other exactly when they overlap, and no waiting tasks form a
cycle.** -/
theorem guards_exclude_overlap {task other : τ} (different : task ≠ other) :
    (∀ left right : Resources,
      (∃ state, LockingReachable state ∧ HoldsGuard state task left ∧ HoldsGuard state other right)
        ↔ ¬Overlap left right)
      ∧ ∀ state : State τ MutationLockKey, LockingReachable state →
          ∀ waiting, ¬Relation.TransGen state.WaitsFor waiting waiting := by
  constructor
  · intro left right
    rw [← conflicts_iff_overlap]
    exact holdTogether_iff different ⟨left, rfl⟩ ⟨right, rfl⟩
  · intro state reachable waiting
    exact reachable.invariant.acyclic waiting

/-- Two tasks, each waiting for what the other took first, cannot come about. -/
theorem guards_exclude_overlap_two : (0 : Nat) ≠ 1 ∧ (∀ left right : Resources,
      (∃ state, LockingReachable state ∧ HoldsGuard state 0 left ∧ HoldsGuard state 1 right)
        ↔ ¬Overlap left right)
    ∧ ∀ state : State Nat MutationLockKey, LockingReachable state →
        ∀ waiting, ¬Relation.TransGen state.WaitsFor waiting waiting :=
  ⟨by decide, guards_exclude_overlap (by decide)⟩

end Clepsydra.Mutate
