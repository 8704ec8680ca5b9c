import Clepsydra.Library.OrderedMap
import Clepsydra.Library.Table

/-!
Owns: fair reader-writer locks taken in key order through a table of weak references, first come,
first served at each. The table forgets lock objects that no task refers to, at any time.

Proves: conflicting requests are never held together, and no task waits for itself through others.
-/

namespace Clepsydra.Library.LockTable

open List Function Option

/-! ### The machine -/

structure Entry (κ : Type) where
  key : κ
  lock : Nat
  write : Bool
deriving DecidableEq

/-- The first `acquired` locks are held; `waiting`: it stands in a queue. -/
structure Active (τ κ : Type) where
  task : τ
  entries : List (Entry κ)
  acquired : Nat
  waiting : Bool

variable {τ κ : Type}

def Active.next (active : Active τ κ) : Option (Entry κ) := active.entries[active.acquired]?

def Active.held (active : Active τ κ) : List (Entry κ) := active.entries.take active.acquired

def Active.wait (active : Active τ κ) : Active τ κ := { active with waiting := true }

def Active.advance (active : Active τ κ) : Active τ κ :=
  { active with acquired := active.acquired + 1, waiting := false }

theorem Active.task_wait (active : Active τ κ) : active.wait.task = active.task := rfl

theorem Active.task_advance (active : Active τ κ) : active.advance.task = active.task := rfl

/-- The lock table maps keys to lock objects weakly; `queue` lists the waiting tasks, the first
first. -/
structure State (τ κ : Type) where
  active : Table τ (Active τ κ) Active.task
  table : κ → Option Nat
  fresh : Nat
  queue : Nat → List τ

def State.initial : State τ κ := ⟨Table.empty, fun _ => none, 0, fun _ => []⟩

def State.alive (state : State τ κ) (lock : Nat) : Bool :=
  state.active.rows.any fun active => active.entries.any fun entry => entry.lock == lock

def State.retain (state : State τ κ) : State τ κ :=
  { state with table := fun key => (state.table key).filter state.alive }

variable [LinearOrder κ]

def fetch (table : κ → Option Nat) (fresh : Nat) :
    List (κ × Bool) → List (Entry κ) × (κ → Option Nat) × Nat
  | [] => ([], table, fresh)
  | (key, write) :: rest =>
    match table key with
    | some lock =>
      let fetched := fetch table fresh rest
      (⟨key, lock, write⟩ :: fetched.1, fetched.2)
    | none =>
      let fetched := fetch (update table key (some fresh)) (fresh + 1) rest
      (⟨key, fresh, write⟩ :: fetched.1, fetched.2)

def compatible (left right : Entry κ) : Bool :=
  left.lock != right.lock || (!left.write && !right.write)

variable [DecidableEq τ]

inductive Action (τ κ : Type) [LinearOrder κ] where
  | start (task : τ) (request : OrderedMap κ Bool)
  | enqueue (task : τ)
  | grant (task : τ)
  | release (task : τ)
  | purge

def State.start (state : State τ κ) (task : τ) (request : OrderedMap κ Bool) : Option (State τ κ) :=
  match state.active.get task with
  | some _ => none
  | none =>
    let cleaned := state.retain
    let fetched := fetch cleaned.table cleaned.fresh request.entries
    some { cleaned with
        active := cleaned.active.insertOrIgnore ⟨task, fetched.1, 0, false⟩
        table := fetched.2.1
        fresh := fetched.2.2 }

def State.enqueue (state : State τ κ) (task : τ) : Option (State τ κ) :=
  match state.active.get task with
  | some active =>
    match active.next, active.waiting with
    | some entry, false =>
      some { state with
          active := state.active.modify task Active.wait Active.task_wait
          queue := update state.queue entry.lock (state.queue entry.lock ++ [task]) }
    | _, _ => none
  | none => none

def State.grant (state : State τ κ) (task : τ) : Option (State τ κ) :=
  match state.active.get task with
  | some active =>
    match active.next with
    | some entry =>
      match state.queue entry.lock with
      | first :: rest =>
        if first = task ∧ state.active.rows.all fun other => other.held.all (compatible entry) then
          some { state with
              active := state.active.modify task Active.advance Active.task_advance
              queue := update state.queue entry.lock rest }
        else none
      | [] => none
    | none => none
  | none => none

def State.release (state : State τ κ) (task : τ) : Option (State τ κ) :=
  match state.active.get task with
  | some _ =>
    some { state with
        active := state.active.erase task
        queue := fun lock => (state.queue lock).filter (· ≠ task) }
  | none => none

def State.step (state : State τ κ) : Action τ κ → Option (State τ κ)
  | .start task request => state.start task request
  | .enqueue task => state.enqueue task
  | .grant task => state.grant task
  | .release task => state.release task
  | .purge => some state.retain

inductive Reachable (asks : OrderedMap κ Bool → Prop) : State τ κ → Prop
  | initial : Reachable asks State.initial
  | step {state next : State τ κ} (action : Action τ κ) (reachable : Reachable asks state)
      (asked : ∀ task request, action = .start task request → asks request)
      (moves : state.step action = some next) : Reachable asks next

def State.Holds (state : State τ κ) (task : τ) (request : OrderedMap κ Bool) : Prop :=
  ∃ active, state.active.get task = some active
    ∧ active.entries.map (fun entry => (entry.key, entry.write)) = request.entries
    ∧ active.acquired = active.entries.length

/-- It stands in a queue, and the other holds the lock against it or stands before it. -/
def State.WaitsFor (state : State τ κ) (task other : τ) : Prop :=
  ∃ active entry, state.active.get task = some active ∧ active.waiting = true
    ∧ active.next = some entry
    ∧ ((∃ holder ∈ state.active.rows, holder.task = other
          ∧ ∃ blocking ∈ holder.held, compatible entry blocking = false)
      ∨ ∃ before between after,
          state.queue entry.lock = before ++ other :: between ++ task :: after)

/-! ### The invariant -/

variable {state : State τ κ} {task : τ}

/-- Keys in use have lock objects of their own, requests are in key order, holders are compatible,
and a queue holds, once each, tasks that wait for its lock object. -/
structure Invariant (state : State τ κ) : Prop where
  tabled : ∀ task active, state.active.get task = some active →
    ∀ entry ∈ active.entries, state.table entry.key = some entry.lock
  apart : ∀ key other lock, state.table key = some lock → state.table other = some lock → key = other
  bounded : ∀ key lock, state.table key = some lock → lock < state.fresh
  sorted : ∀ task active, state.active.get task = some active →
    active.entries.Pairwise fun left right => left.key < right.key
  exclusive : ∀ task active other holder, task ≠ other → state.active.get task = some active →
    state.active.get other = some holder →
    ∀ entry ∈ active.held, ∀ blocking ∈ holder.held, compatible entry blocking = true
  queued : ∀ lock task, task ∈ state.queue lock →
    ∃ active entry, state.active.get task = some active ∧ active.waiting = true
      ∧ active.next = some entry ∧ entry.lock = lock
  once : ∀ lock, (state.queue lock).Nodup

theorem invariant_initial : Invariant (State.initial : State τ κ) where
  tabled := by simp [State.initial]
  apart := by simp [State.initial]
  bounded := by simp [State.initial]
  sorted := by simp [State.initial]
  exclusive := by simp [State.initial]
  queued := by simp [State.initial]
  once := by simp [State.initial]

omit [LinearOrder κ] [DecidableEq τ] in
theorem compatible_comm (left right : Entry κ) : compatible left right = compatible right left := by
  unfold compatible
  rw [Bool.and_comm, bne_comm]

variable {active : Active τ κ}

omit [LinearOrder κ] in
theorem alive_of_entry {entry : Entry κ} (found : state.active.get task = some active)
    (member : entry ∈ active.entries) :
    state.alive entry.lock = true := by
  unfold State.alive
  rw [List.any_eq_true]
  refine ⟨active, Table.mem_of_get found, ?_⟩
  rw [List.any_eq_true]
  exact ⟨entry, member, beq_self_eq_true _⟩

theorem Invariant.retain (invariant : Invariant state) : Invariant state.retain where
  tabled := by
    intro task active found entry member
    have present : state.active.get task = some active := found
    show (state.table entry.key).filter state.alive = some entry.lock
    rw [invariant.tabled task active present entry member]
    simp [alive_of_entry present member]
  apart := by
    intro key other lock keyLock otherLock
    exact invariant.apart key other lock (eq_some_of_filter_eq_some keyLock)
      (eq_some_of_filter_eq_some otherLock)
  bounded := by
    intro key lock keyLock
    exact invariant.bounded key lock (eq_some_of_filter_eq_some keyLock)
  sorted := invariant.sorted
  exclusive := invariant.exclusive
  queued := invariant.queued
  once := invariant.once

/-! ### Fetching lock objects -/

/-- The old table entries stay, and the table stays injective and below the next fresh lock
object. -/
theorem fetch_spec (requests : List (κ × Bool)) (table : κ → Option Nat) (fresh : Nat)
    (apart : ∀ key other lock, table key = some lock → table other = some lock → key = other)
    (bounded : ∀ key lock, table key = some lock → lock < fresh) :
    (∀ key lock, table key = some lock → (fetch table fresh requests).2.1 key = some lock)
      ∧ (∀ entry ∈ (fetch table fresh requests).1,
          (fetch table fresh requests).2.1 entry.key = some entry.lock)
      ∧ (∀ key other lock, (fetch table fresh requests).2.1 key = some lock →
          (fetch table fresh requests).2.1 other = some lock → key = other)
      ∧ (∀ key lock, (fetch table fresh requests).2.1 key = some lock →
          lock < (fetch table fresh requests).2.2)
      ∧ (fetch table fresh requests).1.map (fun entry => (entry.key, entry.write)) = requests := by
  induction requests generalizing table fresh with
  | nil => exact ⟨fun _ _ known => known, by simp [fetch], apart, bounded, rfl⟩
  | cons request rest ih =>
    have ⟨key, write⟩ := request
    cases known : table key with
    | some lock =>
      have ⟨kept, tabled, apartRest, boundedRest, shape⟩ := ih table fresh apart bounded
      simp only [fetch, known]
      refine ⟨kept, ?_, apartRest, boundedRest, by simp [shape]⟩
      intro entry member
      rcases mem_cons.1 member with isHead | inRest
      · rw [isHead]
        exact kept key lock known
      · exact tabled entry inRest
    | none =>
      have apartNew : ∀ k other lock, update table key (some fresh) k = some lock →
          update table key (some fresh) other = some lock → k = other := by
        intro k other lock first second
        by_cases isKey : k = key
        · by_cases otherKey : other = key
          · rw [isKey, otherKey]
          · rw [isKey, update_self] at first
            rw [update_of_ne otherKey] at second
            have below := bounded other lock second
            have isFresh : fresh = lock := some.inj first
            omega
        · rw [update_of_ne isKey] at first
          by_cases otherKey : other = key
          · rw [otherKey, update_self] at second
            have below := bounded k lock first
            have isFresh : fresh = lock := some.inj second
            omega
          · rw [update_of_ne otherKey] at second
            exact apart k other lock first second
      have boundedNew : ∀ k lock, update table key (some fresh) k = some lock →
          lock < fresh + 1 := by
        intro k lock found
        by_cases isKey : k = key
        · rw [isKey, update_self] at found
          have isFresh : fresh = lock := some.inj found
          omega
        · rw [update_of_ne isKey] at found
          have below := bounded k lock found
          omega
      have ⟨kept, tabled, apartRest, boundedRest, shape⟩ := ih _ _ apartNew boundedNew
      simp only [fetch, known]
      refine ⟨?_, ?_, apartRest, boundedRest, by simp [shape]⟩
      · intro k lock found
        apply kept
        have isOther : k ≠ key := by
          intro isKey
          rw [isKey, known] at found
          cases found
        rw [update_of_ne isOther]
        exact found
      · intro entry member
        rcases mem_cons.1 member with isHead | inRest
        · rw [isHead]
          exact kept key fresh (update_self _ _ _)
        · exact tabled entry inRest

/-! ### Steps keep the invariant -/

variable {next : State τ κ}

theorem Invariant.start {request : OrderedMap κ Bool} (invariant : Invariant state)
    (moves : state.start task request = some next) :
    Invariant next := by
  unfold State.start at moves
  cases idle : state.active.get task with
  | some active => simp [idle] at moves
  | none =>
    simp only [idle, some.injEq] at moves
    subst moves
    have cleaned := invariant.retain
    have ⟨kept, tabled, apart, bounded, shape⟩ :=
      fetch_spec request.entries state.retain.table state.retain.fresh cleaned.apart cleaned.bounded
    have lookup : ∀ other, (state.active.insertOrIgnore
        (⟨task, (fetch state.retain.table state.retain.fresh request.entries).1, 0, false⟩ :
          Active τ κ)).get other
        = if task = other ∧ state.active.get other = none then
            some ⟨task, (fetch state.retain.table state.retain.fresh request.entries).1, 0, false⟩
          else state.active.get other :=
      fun other => Table.get_insertOrIgnore _ _ _
    refine ⟨?_, apart, bounded, ?_, ?_, ?_, invariant.once⟩
    · intro other active found entry member
      have place := (lookup other).symm.trans found
      split_ifs at place with isNew
      · have same := some.inj place
        subst same
        exact tabled entry member
      · exact kept _ _ (cleaned.tabled other active place entry member)
    · intro other active found
      have place := (lookup other).symm.trans found
      split_ifs at place with isNew
      · have same := some.inj place
        subst same
        have keys := request.sorted
        rw [← shape, pairwise_map] at keys
        exact keys
      · exact invariant.sorted other active place
    · intro left active right holder different foundLeft foundRight entry member blocking blocks
      have placeLeft := (lookup left).symm.trans foundLeft
      have placeRight := (lookup right).symm.trans foundRight
      split_ifs at placeLeft with leftNew
      · have same := some.inj placeLeft
        subst same
        simp [Active.held] at member
      · split_ifs at placeRight with rightNew
        · have same := some.inj placeRight
          subst same
          simp [Active.held] at blocks
        · exact invariant.exclusive left active right holder different placeLeft placeRight entry
            member blocking blocks
    · intro lock other member
      have ⟨active, entry, found, waiting, needs, isLock⟩ := invariant.queued lock other member
      refine ⟨active, entry, ?_, waiting, needs, isLock⟩
      refine (lookup other).trans ?_
      rw [if_neg, found]
      rintro ⟨_, absent⟩
      rw [found] at absent
      cases absent

theorem Invariant.enqueue (invariant : Invariant state) (moves : state.enqueue task = some next) :
    Invariant next := by
  unfold State.enqueue at moves
  cases found : state.active.get task with
  | none => simp [found] at moves
  | some active =>
    simp only [found] at moves
    split at moves
    case h_2 => cases moves
    rename_i entry needs notWaiting
    simp only [some.injEq] at moves
    subst moves
    have lookup := Table.get_modify state.active task Active.wait Active.task_wait
    -- The entries and the held locks of every task are as before.
    have before : ∀ other changed,
        (state.active.modify task Active.wait Active.task_wait).get other = some changed →
        ∃ original, state.active.get other = some original
          ∧ changed.entries = original.entries ∧ changed.held = original.held := by
      intro other changed place
      rw [lookup other] at place
      split_ifs at place
      · have ⟨original, isOriginal, same⟩ := map_eq_some_iff.1 place
        subst same
        exact ⟨original, isOriginal, rfl, rfl⟩
      · exact ⟨changed, place, rfl, rfl⟩
    have outside : task ∉ state.queue entry.lock := by
      intro member
      have ⟨other, _, isOther, waiting, _⟩ := invariant.queued _ _ member
      rw [found] at isOther
      cases isOther
      rw [notWaiting] at waiting
      cases waiting
    refine ⟨?_, invariant.apart, invariant.bounded, ?_, ?_, ?_, ?_⟩
    · intro other changed place item member
      have ⟨original, isOriginal, entries, _⟩ := before other changed place
      exact invariant.tabled other original isOriginal item (entries ▸ member)
    · intro other changed place
      have ⟨original, isOriginal, entries, _⟩ := before other changed place
      rw [entries]
      exact invariant.sorted other original isOriginal
    · intro left changedLeft right changedRight different placeLeft placeRight item member
        blocking blocks
      have ⟨originalLeft, isLeft, _, heldLeft⟩ := before left changedLeft placeLeft
      have ⟨originalRight, isRight, _, heldRight⟩ := before right changedRight placeRight
      exact invariant.exclusive left originalLeft right originalRight different isLeft isRight
        item (heldLeft ▸ member) blocking (heldRight ▸ blocks)
    · intro lock other member
      replace member : other ∈ update state.queue entry.lock
        (state.queue entry.lock ++ [task]) lock := member
      have place : (other = task ∧ lock = entry.lock) ∨ other ∈ state.queue lock := by
        by_cases isLock : lock = entry.lock
        · subst isLock
          rw [update_self] at member
          rcases mem_append.1 member with old | new
          · exact .inr old
          · exact .inl ⟨mem_singleton.1 new, rfl⟩
        · rw [update_of_ne isLock] at member
          exact .inr member
      rcases place with ⟨isTask, isLock⟩ | old
      · refine ⟨active.wait, entry, ?_, rfl, needs, isLock.symm⟩
        rw [isTask]
        refine (lookup task).trans ?_
        rw [if_pos rfl, found]
        rfl
      · have ⟨original, item, isOriginal, waiting, nextItem, isLock⟩ :=
          invariant.queued lock other old
        refine ⟨original.wait, item, ?_, rfl, nextItem, isLock⟩
        refine (lookup other).trans ?_
        split_ifs
        · rw [isOriginal]
          rfl
        · rw [isOriginal, Active.wait, ← waiting]
    · intro lock
      by_cases isLock : lock = entry.lock
      · subst isLock
        show (update state.queue entry.lock _ entry.lock).Nodup
        rw [update_self]
        refine (invariant.once entry.lock).append (nodup_singleton task) ?_
        simpa using outside
      · show (update state.queue entry.lock _ lock).Nodup
        rw [update_of_ne isLock]
        exact invariant.once lock

theorem Invariant.grant (invariant : Invariant state) (moves : state.grant task = some next) :
    Invariant next := by
  unfold State.grant at moves
  cases found : state.active.get task with
  | none => simp [found] at moves
  | some active =>
    simp only [found] at moves
    cases needs : active.next with
    | none => simp [needs] at moves
    | some entry =>
      simp only [needs] at moves
      cases line : state.queue entry.lock with
      | nil => simp [line] at moves
      | cons first rest =>
        simp only [line] at moves
        split_ifs at moves with allowed
        have ⟨isFirst, free⟩ := allowed
        simp only [some.injEq] at moves
        subst moves isFirst
        have lookup := Table.get_modify state.active first Active.advance Active.task_advance
        have before : ∀ other changed,
            (state.active.modify first Active.advance Active.task_advance).get other = some changed →
            (other ≠ first ∧ state.active.get other = some changed)
              ∨ (other = first ∧ changed = active.advance) := by
          intro other changed place
          rw [lookup other] at place
          split_ifs at place with isTask
          · rw [isTask, found] at place
            exact .inr ⟨isTask, (some.inj place).symm⟩
          · exact .inl ⟨isTask, place⟩
        have heldAdvance : ∀ item ∈ active.advance.held, item ∈ active.held ∨ item = entry := by
          intro item member
          have present : active.entries[active.acquired]? = some entry := needs
          simp only [Active.held, Active.advance, take_add_one, present, mem_append] at member
          rcases member with old | new
          · exact .inl old
          · exact .inr (by simpa using new)
        have noConflict : ∀ other holder, state.active.get other = some holder →
            ∀ blocking ∈ holder.held, compatible entry blocking = true := by
          intro other holder place blocking member
          have all := List.all_eq_true.1 free holder (Table.mem_of_get place)
          exact List.all_eq_true.1 all blocking member
        have notInRest : first ∉ rest := by
          have distinct := invariant.once entry.lock
          rw [line] at distinct
          exact (nodup_cons.1 distinct).1
        refine ⟨?_, invariant.apart, invariant.bounded, ?_, ?_, ?_, ?_⟩
        · intro other changed place item member
          rcases before other changed place with ⟨_, same⟩ | ⟨_, same⟩
          · exact invariant.tabled other changed same item member
          · rw [same] at member
            exact invariant.tabled first active found item member
        · intro other changed place
          rcases before other changed place with ⟨_, same⟩ | ⟨_, same⟩
          · exact invariant.sorted other changed same
          · rw [same]
            exact invariant.sorted first active found
        · intro left changedLeft right changedRight different placeLeft placeRight item member
            blocking blocks
          rcases before left changedLeft placeLeft with ⟨leftOther, isLeft⟩ | ⟨isLeft, sameLeft⟩
          · rcases before right changedRight placeRight with
              ⟨_, isRight⟩ | ⟨isRight, sameRight⟩
            · exact invariant.exclusive left changedLeft right changedRight different isLeft
                isRight item member blocking blocks
            · rw [sameRight] at blocks
              rcases heldAdvance blocking blocks with old | new
              · exact invariant.exclusive left changedLeft first active leftOther isLeft found
                  item member blocking old
              · rw [new, compatible_comm]
                exact noConflict left changedLeft isLeft item member
          · rcases before right changedRight placeRight with
              ⟨rightOther, isRight⟩ | ⟨isRight, _⟩
            · rw [sameLeft] at member
              rcases heldAdvance item member with old | new
              · exact invariant.exclusive first active right changedRight
                  (Ne.symm rightOther) found isRight item old blocking blocks
              · rw [new]
                exact noConflict right changedRight isRight blocking blocks
            · exact absurd (isLeft.trans isRight.symm) different
        · intro lock other member
          replace member : other ∈ update state.queue entry.lock rest lock := member
          have old : other ∈ state.queue lock ∧ other ≠ first := by
            by_cases isLock : lock = entry.lock
            · subst isLock
              rw [update_self] at member
              refine ⟨by rw [line]; exact mem_cons_of_mem _ member, ?_⟩
              intro isTask
              exact notInRest (isTask ▸ member)
            · rw [update_of_ne isLock] at member
              refine ⟨member, fun isTask => ?_⟩
              have ⟨original, item, isOriginal, _, nextItem, itemLock⟩ :=
                invariant.queued lock other member
              rw [isTask, found] at isOriginal
              cases isOriginal
              rw [needs] at nextItem
              cases nextItem
              exact isLock itemLock.symm
          have ⟨original, item, isOriginal, waiting, nextItem, itemLock⟩ :=
            invariant.queued lock other old.1
          refine ⟨original, item, ?_, waiting, nextItem, itemLock⟩
          refine (lookup other).trans ?_
          rw [if_neg old.2, isOriginal]
        · intro lock
          by_cases isLock : lock = entry.lock
          · subst isLock
            show (update state.queue entry.lock _ entry.lock).Nodup
            rw [update_self]
            have distinct := invariant.once entry.lock
            rw [line] at distinct
            exact (nodup_cons.1 distinct).2
          · show (update state.queue entry.lock _ lock).Nodup
            rw [update_of_ne isLock]
            exact invariant.once lock

theorem Invariant.release (invariant : Invariant state) (moves : state.release task = some next) :
    Invariant next := by
  unfold State.release at moves
  cases found : state.active.get task with
  | none => simp [found] at moves
  | some active =>
    simp only [found, some.injEq] at moves
    subst moves
    have lookup := Table.get_erase state.active task
    have before : ∀ other kept, (state.active.erase task).get other = some kept →
        other ≠ task ∧ state.active.get other = some kept := by
      intro other kept place
      rw [lookup other] at place
      split_ifs at place with isTask
      exact ⟨isTask, place⟩
    refine ⟨?_, invariant.apart, invariant.bounded, ?_, ?_, ?_, ?_⟩
    · intro other kept place
      exact invariant.tabled other kept (before other kept place).2
    · intro other kept place
      exact invariant.sorted other kept (before other kept place).2
    · intro left keptLeft right keptRight different placeLeft placeRight
      exact invariant.exclusive left keptLeft right keptRight different
        (before left keptLeft placeLeft).2 (before right keptRight placeRight).2
    · intro lock other member
      have ⟨old, isOther⟩ := mem_filter.1 member
      have ⟨original, item, isOriginal, waiting, nextItem, itemLock⟩ :=
        invariant.queued lock other old
      refine ⟨original, item, ?_, waiting, nextItem, itemLock⟩
      refine (lookup other).trans ?_
      rw [if_neg (by simpa using isOther), isOriginal]
    · intro lock
      exact (invariant.once lock).filter _

theorem Reachable.invariant {asks : OrderedMap κ Bool → Prop} (reachable : Reachable asks state) :
    Invariant state := by
  induction reachable with
  | initial => exact invariant_initial
  | step action _ _ moves ih =>
    cases action with
    | start task request => exact ih.start moves
    | enqueue task => exact ih.enqueue moves
    | grant task => exact ih.grant moves
    | release task => exact ih.release moves
    | purge =>
      cases moves
      exact ih.retain

/-! ### Exclusion -/

def Conflicts (left right : OrderedMap κ Bool) : Prop :=
  ∃ key leftWrite rightWrite, (key, leftWrite) ∈ left.entries ∧ (key, rightWrite) ∈ right.entries
    ∧ (leftWrite = true ∨ rightWrite = true)

theorem Invariant.lock_eq_iff (invariant : Invariant state) {other : τ} {holder : Active τ κ}
    (found : state.active.get task = some active)
    (foundOther : state.active.get other = some holder) {entry blocking : Entry κ}
    (member : entry ∈ active.entries) (blocks : blocking ∈ holder.entries) :
    entry.lock = blocking.lock ↔ entry.key = blocking.key := by
  have tabled := invariant.tabled task active found entry member
  have tabledOther := invariant.tabled other holder foundOther blocking blocks
  constructor
  · intro sameLock
    exact invariant.apart _ _ _ tabled (sameLock ▸ tabledOther)
  · intro sameKey
    rw [sameKey, tabledOther] at tabled
    exact (some.inj tabled).symm

theorem State.Holds.entry {request : OrderedMap κ Bool}
    (found : state.active.get task = some active) (holds : state.Holds task request) {key : κ}
    {write : Bool} (member : (key, write) ∈ request.entries) :
    ∃ entry ∈ active.held, entry.key = key ∧ entry.write = write ∧ entry ∈ active.entries := by
  have ⟨other, foundOther, shape, full⟩ := holds
  rw [found] at foundOther
  cases foundOther
  rw [← shape] at member
  have ⟨entry, inEntries, same⟩ := List.mem_map.1 member
  have parts := Prod.mk.inj same
  refine ⟨entry, ?_, parts.1, parts.2, inEntries⟩
  rw [Active.held, full, take_length]
  exact inEntries

theorem Invariant.not_conflicts (invariant : Invariant state) {other : τ}
    {left right : OrderedMap κ Bool} (different : task ≠ other) (holdsLeft : state.Holds task left)
    (holdsRight : state.Holds other right) :
    ¬Conflicts left right := by
  rintro ⟨key, leftWrite, rightWrite, inLeft, inRight, writes⟩
  have isLeft := holdsLeft
  have isRight := holdsRight
  have ⟨active, found, _, _⟩ := isLeft
  have ⟨holder, foundOther, _, _⟩ := isRight
  have ⟨entry, held, entryKey, entryWrite, inEntries⟩ := holdsLeft.entry found inLeft
  have ⟨blocking, blocks, blockingKey, blockingWrite, inHolder⟩ :=
    holdsRight.entry foundOther inRight
  have sameLock : entry.lock = blocking.lock :=
    (invariant.lock_eq_iff found foundOther inEntries inHolder).2 (entryKey.trans blockingKey.symm)
  have allowed := invariant.exclusive task active other holder different found foundOther entry held
    blocking blocks
  simp only [compatible, sameLock, bne_self_eq_false, Bool.false_or, entryWrite, blockingWrite,
    Bool.and_eq_true, Bool.not_eq_true'] at allowed
  rcases writes with isTrue | isTrue
  · rw [isTrue] at allowed
    exact Bool.noConfusion allowed.1
  · rw [isTrue] at allowed
    exact Bool.noConfusion allowed.2

/-! ### Requests without a conflict are granted together -/

section Progress

variable {asks : OrderedMap κ Bool → Prop} {task : τ}

theorem Reachable.acquire {state : State τ κ} (reachable : Reachable asks state)
    {active : Active τ κ} {entry : Entry κ} (found : state.active.get task = some active)
    (needs : active.next = some entry) (notWaiting : active.waiting = false)
    (alone : state.queue entry.lock = [])
    (free : ∀ other holder, other ≠ task → state.active.get other = some holder →
      ∀ blocking ∈ holder.held, compatible entry blocking = true) :
    ∃ next, Reachable asks next ∧ (∀ lock, next.queue lock = state.queue lock)
      ∧ ∀ other, next.active.get other
          = if other = task then some active.advance else state.active.get other := by
  let queued : State τ κ := { state with
      active := state.active.modify task Active.wait Active.task_wait
      queue := update state.queue entry.lock (state.queue entry.lock ++ [task]) }
  have enqueues : state.step (.enqueue task) = some queued := by
    show state.enqueue task = some queued
    unfold State.enqueue
    simp only [found, needs, notWaiting]
    rfl
  have lookup : ∀ other, queued.active.get other
      = if other = task then (state.active.get other).map Active.wait
        else state.active.get other :=
    Table.get_modify state.active task Active.wait Active.task_wait
  have foundQueued : queued.active.get task = some active.wait := by
    rw [lookup, if_pos rfl, found]
    rfl
  have needsQueued : active.wait.next = some entry := needs
  have line : queued.queue entry.lock = [task] := by
    show update state.queue entry.lock (state.queue entry.lock ++ [task]) entry.lock = [task]
    rw [update_self, alone]
    rfl
  -- The task's own earlier locks have smaller keys, hence are other lock objects.
  have ownFree : ∀ blocking ∈ active.held, compatible entry blocking = true := by
    intro blocking blocks
    have ⟨index, indexHeld, isBlocking⟩ := mem_take_iff_getElem.1 blocks
    have ⟨inRange, isEntry⟩ := List.getElem?_eq_some_iff.1 needs
    have sorted := reachable.invariant.sorted task active found
    have below : blocking.key < entry.key := by
      rw [← isBlocking, ← isEntry]
      exact pairwise_iff_getElem.1 sorted index active.acquired _ inRange (by omega)
    have otherLock : entry.lock ≠ blocking.lock := by
      intro sameLock
      have sameKey := (reachable.invariant.lock_eq_iff found found (mem_of_getElem? needs)
        (mem_of_mem_take blocks)).1 sameLock
      rw [sameKey] at below
      exact lt_irrefl _ below
    simp [compatible, otherLock]
  have allFree : queued.active.rows.all (fun other => other.held.all (compatible entry)) = true := by
    rw [List.all_eq_true]
    intro holder isRow
    rw [List.all_eq_true]
    intro blocking blocks
    have place := Table.get_of_mem isRow
    rw [lookup] at place
    split_ifs at place with isTask
    · rw [isTask, found] at place
      have same : active.wait = holder := some.inj place
      rw [← same] at blocks
      exact ownFree blocking blocks
    · exact free _ holder isTask place blocking blocks
  let granted : State τ κ := { queued with
      active := queued.active.modify task Active.advance Active.task_advance
      queue := update queued.queue entry.lock [] }
  have grants : queued.step (.grant task) = some granted := by
    show queued.grant task = some granted
    unfold State.grant
    simp only [foundQueued, needsQueued, line, allFree, and_self, if_true]
    rfl
  have reachableQueued : Reachable asks queued :=
    Reachable.step _ reachable (by intro _ _ isStart; cases isStart) enqueues
  have reachableGranted : Reachable asks granted :=
    Reachable.step _ reachableQueued (by intro _ _ isStart; cases isStart) grants
  refine ⟨granted, reachableGranted, ?_, ?_⟩
  · intro lock
    show update queued.queue entry.lock [] lock = state.queue lock
    by_cases isLock : lock = entry.lock
    · rw [isLock, update_self, alone]
    · rw [update_of_ne isLock]
      exact update_of_ne isLock _ _
  · intro other
    refine (Table.get_modify queued.active task Active.advance Active.task_advance other).trans ?_
    rw [lookup]
    split_ifs with isTask
    · rw [isTask, found]
      rfl
    · rfl

theorem Reachable.acquireAll (missing : Nat) {state : State τ κ} (reachable : Reachable asks state)
    {active : Active τ κ} (found : state.active.get task = some active)
    (notWaiting : active.waiting = false) (quiet : ∀ lock, state.queue lock = [])
    (lacks : active.acquired + missing = active.entries.length)
    (free : ∀ other holder, other ≠ task → state.active.get other = some holder →
      ∀ entry ∈ active.entries, ∀ blocking ∈ holder.held, compatible entry blocking = true) :
    ∃ next, Reachable asks next ∧ (∀ lock, next.queue lock = [])
      ∧ (∀ other, other ≠ task → next.active.get other = state.active.get other)
      ∧ ∃ last, next.active.get task = some last ∧ last.entries = active.entries
          ∧ last.acquired = active.entries.length := by
  induction missing generalizing state active with
  | zero => exact ⟨state, reachable, quiet, fun _ _ => rfl, active, found, rfl, by omega⟩
  | succ missing ih =>
    have inRange : active.acquired < active.entries.length := by omega
    have needs : active.next = some active.entries[active.acquired] := getElem?_eq_getElem inRange
    have freeNext : ∀ other holder, other ≠ task → state.active.get other = some holder →
        ∀ blocking ∈ holder.held, compatible active.entries[active.acquired] blocking = true := by
      intro other holder isOther place
      exact free other holder isOther place _ (getElem_mem inRange)
    have ⟨middle, reachableMiddle, queues, lookup⟩ :=
      reachable.acquire found needs notWaiting (quiet _) freeNext
    have others : ∀ other, other ≠ task → middle.active.get other = state.active.get other := by
      intro other isOther
      rw [lookup, if_neg isOther]
    have foundMiddle : middle.active.get task = some active.advance := by
      rw [lookup, if_pos rfl]
    have ⟨next, reachableNext, quietNext, othersNext, last, foundLast, entries, full⟩ :=
      ih reachableMiddle foundMiddle rfl (fun lock => (queues lock).trans (quiet lock))
        (by show active.acquired + 1 + missing = active.entries.length; omega)
        (fun other holder isOther place =>
          free other holder isOther ((others other isOther).symm.trans place))
    refine ⟨next, reachableNext, quietNext, ?_, last, foundLast, entries, full⟩
    intro other isOther
    exact (othersNext other isOther).trans (others other isOther)

omit [LinearOrder κ] in
theorem State.idle_initial (task : τ) : (State.initial : State τ κ).active.get task = none :=
  Table.get_empty task

/-- An idle task whose request conflicts with nothing held comes to hold it. -/
theorem Reachable.join {state : State τ κ} (reachable : Reachable asks state)
    {request : OrderedMap κ Bool} (asked : asks request) (idle : state.active.get task = none)
    (quiet : ∀ lock, state.queue lock = [])
    (free : ∀ other holder, state.active.get other = some holder → ∀ blocking ∈ holder.held,
      ∀ write, (blocking.key, write) ∈ request.entries → write = false ∧ blocking.write = false) :
    ∃ next, Reachable asks next ∧ next.Holds task request ∧ (∀ lock, next.queue lock = [])
      ∧ ∀ other, other ≠ task → next.active.get other = state.active.get other := by
  have cleaned := reachable.invariant.retain
  have shape := (fetch_spec request.entries state.retain.table state.retain.fresh cleaned.apart
    cleaned.bounded).2.2.2.2
  let active : Active τ κ :=
    ⟨task, (fetch state.retain.table state.retain.fresh request.entries).1, 0, false⟩
  let started : State τ κ := { state.retain with
      active := state.active.insertOrIgnore active
      table := (fetch state.retain.table state.retain.fresh request.entries).2.1
      fresh := (fetch state.retain.table state.retain.fresh request.entries).2.2 }
  have starts : state.step (.start task request) = some started := by
    show state.start task request = some started
    unfold State.start
    simp only [idle]
    rfl
  have reachableStarted : Reachable asks started := by
    apply Reachable.step _ reachable _ starts
    intro _ _ isStart
    cases isStart
    exact asked
  have lookup : ∀ other, started.active.get other
      = if task = other ∧ state.active.get other = none then some active
        else state.active.get other :=
    fun other => Table.get_insertOrIgnore _ _ _
  have foundStarted : started.active.get task = some active := by
    rw [lookup, if_pos ⟨rfl, idle⟩]
  have others : ∀ other, other ≠ task → started.active.get other = state.active.get other := by
    intro other isOther
    rw [lookup, if_neg]
    intro both
    exact isOther both.1.symm
  have freeStarted : ∀ other holder, other ≠ task → started.active.get other = some holder →
      ∀ entry ∈ active.entries, ∀ blocking ∈ holder.held, compatible entry blocking = true := by
    intro other holder isOther place entry member blocking blocks
    by_cases sameLock : entry.lock = blocking.lock
    · have sameKey := (reachableStarted.invariant.lock_eq_iff foundStarted place member
        (mem_of_mem_take blocks)).1 sameLock
      have asked : (blocking.key, entry.write) ∈ request.entries := by
        rw [← shape, ← sameKey]
        exact List.mem_map_of_mem member
      have reads := free other holder ((others other isOther).symm.trans place) blocking blocks
        entry.write asked
      simp [compatible, reads.1, reads.2]
    · simp [compatible, sameLock]
  have ⟨next, reachableNext, quietNext, othersNext, last, foundLast, entries, full⟩ :=
    reachableStarted.acquireAll active.entries.length foundStarted rfl quiet (Nat.zero_add _)
      freeStarted
  refine ⟨next, reachableNext, ⟨last, foundLast, ?_, ?_⟩, quietNext, ?_⟩
  · rw [entries]
    exact shape
  · rw [full, entries]
  · intro other isOther
    exact (othersNext other isOther).trans (others other isOther)

theorem holdTogether_iff {other : τ} (different : task ≠ other) {left right : OrderedMap κ Bool}
    (asksLeft : asks left) (asksRight : asks right) :
    (∃ state : State τ κ, Reachable asks state ∧ state.Holds task left ∧ state.Holds other right)
      ↔ ¬Conflicts left right := by
  constructor
  · rintro ⟨state, reachable, holdsLeft, holdsRight⟩
    exact reachable.invariant.not_conflicts different holdsLeft holdsRight
  · intro noConflict
    have ⟨first, reachableFirst, holdsLeft, quiet, others⟩ :=
      (Reachable.initial : Reachable asks (State.initial : State τ κ)).join
        asksLeft (State.idle_initial task) (fun _ => rfl) (by simp [State.initial])
    have idle : first.active.get other = none := by
      rw [others other (Ne.symm different)]
      exact State.idle_initial other
    have free : ∀ holderTask holder, first.active.get holderTask = some holder →
        ∀ blocking ∈ holder.held, ∀ write, (blocking.key, write) ∈ right.entries →
          write = false ∧ blocking.write = false := by
      intro holderTask holder found blocking blocks write asked
      have ⟨active, foundLeft, shape, _⟩ := holdsLeft
      have isTask : holderTask = task := by
        by_contra isOther
        rw [others holderTask isOther] at found
        simp [State.initial] at found
      rw [isTask, foundLeft] at found
      have same : active = holder := some.inj found
      rw [← same] at blocks
      have held : (blocking.key, blocking.write) ∈ left.entries := by
        rw [← shape]
        exact List.mem_map_of_mem (mem_of_mem_take blocks)
      have neither := not_or.1 fun writes =>
        noConflict ⟨blocking.key, blocking.write, write, held, asked, writes⟩
      exact ⟨Bool.eq_false_of_not_eq_true neither.2, Bool.eq_false_of_not_eq_true neither.1⟩
    have ⟨second, reachableSecond, holdsRight, _, kept⟩ :=
      reachableFirst.join asksRight idle quiet free
    have ⟨active, foundLeft, shape, full⟩ := holdsLeft
    refine ⟨second, reachableSecond, ⟨active, ?_, shape, full⟩, holdsRight⟩
    rw [kept task different]
    exact foundLeft

end Progress

/-! ### No cyclic waiting -/

/-- Where a waiting task stands: the key it waits at, then its place in the queue, the front being
highest. -/
def State.rank (state : State τ κ) (task : τ) : WithTop (κ ×ₗ ℕᵒᵈ) :=
  match state.active.get task with
  | some active =>
    if active.waiting then
      match active.next with
      | some entry =>
        ((toLex (entry.key, OrderDual.toDual ((state.queue entry.lock).idxOf task)) : κ ×ₗ ℕᵒᵈ))
      | none => ⊤
    else ⊤
  | none => ⊤

theorem Invariant.rank_lt (invariant : Invariant state) {other : τ}
    (waits : state.WaitsFor task other) : state.rank task < state.rank other := by
  have ⟨active, entry, found, waiting, needs, blocked⟩ := waits
  have inEntries : entry ∈ active.entries := mem_of_getElem? needs
  have rankTask : state.rank task
      = (toLex (entry.key, OrderDual.toDual ((state.queue entry.lock).idxOf task)) : κ ×ₗ ℕᵒᵈ) := by
    unfold State.rank
    simp only [found, waiting, if_true, needs]
  rw [rankTask]
  rcases blocked with ⟨holder, isRow, isOther, blocking, blocks, conflict⟩ | ⟨before, between, after, line⟩
  · have foundOther : state.active.get other = some holder := isOther ▸ Table.get_of_mem isRow
    have inHolder : blocking ∈ holder.entries := mem_of_mem_take blocks
    have sameLock : entry.lock = blocking.lock := by
      by_contra otherLock
      have apart : (entry.lock != blocking.lock) = true := bne_iff_ne.2 otherLock
      simp [compatible, apart] at conflict
    have sameKey := (invariant.lock_eq_iff found foundOther inEntries inHolder).1 sameLock
    unfold State.rank
    simp only [foundOther]
    split_ifs with otherWaits
    · cases otherNeeds : holder.next with
      | none => exact WithTop.coe_lt_top _
      | some later =>
        -- The holder's next lock comes after every lock it holds.
        have ahead : blocking.key < later.key := by
          have sorted := invariant.sorted other holder foundOther
          have ⟨index, indexHeld, isBlocking⟩ := mem_take_iff_getElem.1 blocks
          have ⟨inRange, isLater⟩ := List.getElem?_eq_some_iff.1 otherNeeds
          rw [← isBlocking, ← isLater]
          exact pairwise_iff_getElem.1 sorted index holder.acquired _ inRange (by omega)
        refine WithTop.coe_lt_coe.2 (Prod.Lex.toLex_lt_toLex.2 (.inl ?_))
        rw [sameKey]
        exact ahead
    · exact WithTop.coe_lt_top _
  · have member : other ∈ state.queue entry.lock := by
      rw [line]
      simp
    have ⟨holder, item, foundOther, otherWaits, otherNeeds, itemLock⟩ :=
      invariant.queued entry.lock other member
    have inHolder : item ∈ holder.entries := mem_of_getElem? otherNeeds
    have sameKey : entry.key = item.key :=
      (invariant.lock_eq_iff found foundOther inEntries inHolder).1 itemLock.symm
    have distinct := invariant.once entry.lock
    rw [line] at distinct
    have earlier : (state.queue entry.lock).idxOf other < (state.queue entry.lock).idxOf task := by
      rw [line]
      have ⟨_, _, apart⟩ := nodup_append.1 distinct
      have taskOutside : task ∉ before ++ other :: between := by
        intro inside
        exact apart task inside task mem_cons_self rfl
      have otherOutside : other ∉ before := by
        have front := (nodup_append.1 distinct).1
        intro inside
        exact (nodup_append.1 front).2.2 other inside other mem_cons_self rfl
      have placeTask : (before ++ other :: between ++ task :: after).idxOf task
          = (before ++ other :: between).length := by
        rw [idxOf_append_of_notMem taskOutside]
        simp
      have placeOther : (before ++ other :: between ++ task :: after).idxOf other
          = before.length := by
        rw [append_assoc, idxOf_append_of_notMem otherOutside]
        simp
      rw [placeTask, placeOther, length_append, length_cons]
      omega
    have rankOther : state.rank other
        = (toLex (item.key, OrderDual.toDual ((state.queue item.lock).idxOf other)) : κ ×ₗ ℕᵒᵈ) := by
      unfold State.rank
      simp only [foundOther, otherWaits, if_true, otherNeeds]
    rw [rankOther, sameKey, itemLock]
    exact WithTop.coe_lt_coe.2 (Prod.Lex.toLex_lt_toLex.2 (.inr ⟨rfl, earlier⟩))

theorem Invariant.acyclic (invariant : Invariant state) (task : τ) :
    ¬Relation.TransGen state.WaitsFor task task := by
  have rises : ∀ {other}, Relation.TransGen state.WaitsFor task other →
      state.rank task < state.rank other := by
    intro other path
    induction path with
    | single edge => exact invariant.rank_lt edge
    | tail _ edge ih => exact lt_trans ih (invariant.rank_lt edge)
  intro cycle
  exact lt_irrefl _ (rises cycle)

end Clepsydra.Library.LockTable
