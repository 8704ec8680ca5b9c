import Mathlib

/-!
Owns: breadth-first search for a goal along successor lists.

Proves: a search that finds nothing has closed off everything it started from, given as much fuel as
there are successors; new edges that lead nowhere back to their node close no cycle.
-/

namespace Clepsydra.Library.Search

open List

variable {α : Type} [DecidableEq α]

structure Frontier (α : Type) where
  parent : List (α × α)
  queue : List α

def Frontier.visited (frontier : Frontier α) : List α := frontier.parent.map Prod.fst

def Frontier.visit (frontier : Frontier α) (origin node : α) : Frontier α :=
  if node ∈ frontier.visited then frontier
  else ⟨frontier.parent ++ [(node, origin)], frontier.queue ++ [node]⟩

def expand (goal current : α) : Frontier α → List α → Option (Frontier α)
  | frontier, [] => some frontier
  | frontier, node :: rest =>
    if node = goal then none else expand goal current (frontier.visit current node) rest

def search (successors : α → List α) (goal : α) : Nat → Frontier α → Option (α × Frontier α)
  | 0, _ => none
  | fuel + 1, frontier =>
    match frontier.queue with
    | [] => none
    | current :: rest =>
      match expand goal current ⟨frontier.parent, rest⟩ (successors current) with
      | none => some (current, frontier)
      | some next => search successors goal fuel next

/-! ### Expansion -/

section Expansion

variable {goal current : α} {successors : α → List α}

structure Frontier.Within (frontier : Frontier α) (targets : List α) : Prop where
  distinct : frontier.visited.Nodup
  known : ∀ node ∈ frontier.visited, node ∈ targets
  queued : ∀ node ∈ frontier.queue, node ∈ frontier.visited

def Frontier.Fuelled (frontier : Frontier α) (targets : List α) (fuel : Nat) : Prop :=
  targets.length + frontier.queue.length < frontier.visited.length + fuel

variable {frontier : Frontier α} {targets : List α}

omit [DecidableEq α] in
theorem Frontier.Within.length_le (within : frontier.Within targets) :
    frontier.visited.length ≤ targets.length :=
  (within.distinct.subperm within.known).length_le

omit [DecidableEq α] in
theorem Frontier.Within.pop {rest : List α} (within : frontier.Within targets)
    (queue : frontier.queue = current :: rest) :
    Frontier.Within ⟨frontier.parent, rest⟩ targets :=
  ⟨within.distinct, within.known, fun node member =>
    within.queued node (queue ▸ mem_cons_of_mem current member)⟩

omit [DecidableEq α] in
theorem Frontier.Fuelled.pop {rest : List α} {fuel : Nat}
    (fuelled : frontier.Fuelled targets (fuel + 1)) (queue : frontier.queue = current :: rest) :
    Frontier.Fuelled ⟨frontier.parent, rest⟩ targets fuel := by
  unfold Frontier.Fuelled at fuelled ⊢
  have same : Frontier.visited ⟨frontier.parent, rest⟩ = frontier.visited := rfl
  rw [same]
  rw [queue, length_cons] at fuelled
  show targets.length + rest.length < _
  omega

theorem within_visit {node : α} (within : frontier.Within targets) (target : node ∈ targets) :
    (frontier.visit current node).Within targets := by
  unfold Frontier.visit
  split_ifs with seen
  · exact within
  · refine ⟨?_, ?_, ?_⟩
    · simpa [Frontier.visited] using within.distinct.append (nodup_singleton node)
        (by simpa [disjoint_singleton] using seen)
    · intro other visited
      simp only [Frontier.visited, map_append, map_singleton, mem_append, mem_singleton] at visited
      rcases visited with old | isNode
      · exact within.known other old
      · rw [isNode]
        exact target
    · intro other queued
      simp only [Frontier.visited, map_append, map_singleton, mem_append, mem_singleton] at queued ⊢
      exact queued.imp_left (within.queued other)

theorem fuelled_visit {fuel : Nat} {node : α} (fuelled : frontier.Fuelled targets fuel) :
    (frontier.visit current node).Fuelled targets fuel := by
  unfold Frontier.visit
  split_ifs
  · exact fuelled
  · unfold Frontier.Fuelled Frontier.visited at fuelled ⊢
    simp only [map_append, map_singleton, length_append, length_singleton, length_map] at fuelled ⊢
    omega

theorem visited_visit {node other : α} :
    other ∈ (frontier.visit current node).visited ↔ other ∈ frontier.visited ∨ other = node := by
  unfold Frontier.visit
  split_ifs with seen
  · refine ⟨.inl, fun either => either.elim (fun old => old) fun same => ?_⟩
    rw [same]
    exact seen
  · simp [Frontier.visited]

theorem queued_visit {node other : α} (visited : other ∈ (frontier.visit current node).visited)
    (notQueued : other ∉ (frontier.visit current node).queue) :
    other ∈ frontier.visited ∧ other ∉ frontier.queue := by
  unfold Frontier.visit at visited notQueued
  split_ifs at visited notQueued with seen
  · exact ⟨visited, notQueued⟩
  · simp only [Frontier.visited, map_append, map_singleton, mem_append,
      mem_singleton, not_or] at visited notQueued
    exact ⟨visited.resolve_right notQueued.2, notQueued.1⟩

structure Expands (frontier next : Frontier α) (goal : α) (nodes : List α) : Prop where
  grows : ∀ node ∈ frontier.visited, node ∈ next.visited
  reaches : ∀ node ∈ nodes, node ≠ goal ∧ node ∈ next.visited
  queues : ∀ node ∈ next.visited, node ∉ next.queue →
    node ∈ frontier.visited ∧ node ∉ frontier.queue

theorem expands_of_expand {nodes : List α} {fuel : Nat} (possible : ∀ node ∈ nodes, node ∈ targets)
    :
    ∀ {frontier next : Frontier α}, frontier.Within targets → frontier.Fuelled targets fuel →
      expand goal current frontier nodes = some next →
      next.Within targets ∧ next.Fuelled targets fuel ∧ Expands frontier next goal nodes := by
  induction nodes with
  | nil =>
    intro frontier next within fuelled expanded
    rw [← Option.some.inj expanded]
    exact ⟨within, fuelled, fun _ old => old, fun _ none => absurd none not_mem_nil,
      fun _ visited notQueued => ⟨visited, notQueued⟩⟩
  | cons node rest ih =>
    intro frontier next within fuelled expanded
    unfold expand at expanded
    split_ifs at expanded with isGoal
    have ⟨nextWithin, nextFuelled, grows, reaches, queues⟩ :=
      ih (fun other member => possible other (mem_cons_of_mem node member))
        (within_visit within (possible node mem_cons_self)) (fuelled_visit fuelled) expanded
    refine ⟨nextWithin, nextFuelled, ?_, ?_, ?_⟩
    · exact fun other old => grows other (visited_visit.2 (.inl old))
    · intro other member
      rcases mem_cons.1 member with isNode | inRest
      · rw [isNode]
        exact ⟨isGoal, grows node (visited_visit.2 (.inr rfl))⟩
      · exact reaches other inRest
    · intro other visited notQueued
      have before := queues other visited notQueued
      exact queued_visit before.1 before.2

end Expansion

/-! ### Search -/

def Frontier.Closed (frontier : Frontier α) (successors : α → List α) (goal : α) : Prop :=
  ∀ node ∈ frontier.visited, node ∉ frontier.queue →
    ∀ next ∈ successors node, next ≠ goal ∧ next ∈ frontier.visited

theorem closed_of_search {successors : α → List α} {goal : α} {targets : List α}
    (possible : ∀ node, ∀ next ∈ successors node, next ∈ targets) :
    ∀ {fuel : Nat} {frontier : Frontier α}, frontier.Within targets →
      frontier.Fuelled targets fuel → frontier.Closed successors goal →
      search successors goal fuel frontier = none →
      ∃ closed : α → Prop, (∀ node ∈ frontier.visited, closed node)
        ∧ ∀ node, closed node → ∀ next ∈ successors node, next ≠ goal ∧ closed next := by
  intro fuel
  induction fuel with
  | zero =>
    intro frontier within fuelled
    have few := within.length_le
    unfold Frontier.Fuelled at fuelled
    omega
  | succ fuel ih =>
    intro frontier within fuelled closed nothing
    unfold search at nothing
    split at nothing
    · rename_i emptyQueue
      refine ⟨fun node => node ∈ frontier.visited, fun _ member => member, ?_⟩
      intro node visited
      exact closed node visited (by simp [emptyQueue])
    · rename_i current rest queue
      split at nothing
      · cases nothing
      · rename_i next expanded
        have ⟨nextWithin, nextFuelled, grows, reaches, queues⟩ :=
          expands_of_expand (possible current) (within.pop queue) (fuelled.pop queue) expanded
        have nextClosed : next.Closed successors goal := by
          intro node visited notQueued
          have ⟨before, notRest⟩ := queues node visited notQueued
          by_cases isCurrent : node = current
          · rw [isCurrent]
            exact reaches
          · have notBefore : node ∉ frontier.queue := by
              rw [queue]
              exact not_mem_cons_of_ne_of_not_mem isCurrent notRest
            intro successor member
            have kept := closed node before notBefore successor member
            exact ⟨kept.1, grows successor kept.2⟩
        have ⟨stays, contains, leads⟩ := ih nextWithin nextFuelled nextClosed nothing
        exact ⟨stays, fun node visited => contains node (grows node visited), leads⟩

omit [DecidableEq α] in
theorem not_reaches_of_closed {successors : α → List α} {goal : α} {closed : α → Prop}
    (leads : ∀ node, closed node → ∀ next ∈ successors node, next ≠ goal ∧ closed next)
    {start : α} (inClosed : closed start) (notGoal : start ≠ goal) :
    ¬Relation.ReflTransGen (fun node next => next ∈ successors node) start goal := by
  intro reaches
  have stays : ∀ node, Relation.ReflTransGen (fun node next => next ∈ successors node) start node →
      closed node ∧ node ≠ goal := by
    intro node reached
    induction reached with
    | refl => exact ⟨inClosed, notGoal⟩
    | tail _ edge ih =>
      have next := leads _ ih.1 _ edge
      exact ⟨next.2, next.1⟩
  exact (stays goal reaches).2 rfl

/-! ### New edges out of one node -/

section NewEdges

omit [DecidableEq α]

variable {before after : α → α → Prop} {source : α}

theorem reaches_source_before (others : ∀ node next, node ≠ source → after node next → before node next)
    {node : α} (reaches : Relation.ReflTransGen after node source) :
    Relation.ReflTransGen before node source := by
  induction reaches using Relation.ReflTransGen.head_induction_on with
  | refl => exact .refl
  | @head current next edge _ ih =>
    by_cases isSource : current = source
    · rw [isSource]
    · exact .head (others current next isSource edge) ih

theorem acyclic_of_newEdges (acyclic : ∀ node, ¬Relation.TransGen before node node)
    (others : ∀ node next, node ≠ source → after node next → before node next)
    (added : ∀ next, after source next →
      before source next ∨ ¬Relation.ReflTransGen before next source) :
    ∀ node, ¬Relation.TransGen after node node := by
  -- an edge on a cycle of the new graph was there before
  have oldEdge : ∀ node next, after node next → Relation.ReflTransGen after next node →
      before node next := by
    intro node next edge back
    by_cases isSource : node = source
    · rw [isSource] at edge back ⊢
      rcases added next edge with old | leadsAway
      · exact old
      · exact absurd (reaches_source_before others back) leadsAway
    · exact others node next isSource edge
  have oldWay : ∀ start node, Relation.ReflTransGen after start node →
      Relation.ReflTransGen after node start → Relation.ReflTransGen before start node := by
    intro start node there
    induction there with
    | refl => exact fun _ => .refl
    | tail reached edge ih =>
      intro back
      exact .tail (ih (.head edge back)) (oldEdge _ _ edge (back.trans reached))
  intro node cycle
  have ⟨next, edge, back⟩ := Relation.TransGen.head'_iff.1 cycle
  have first := oldEdge node next edge back
  have rest := oldWay next node back (.single edge)
  exact acyclic node (Relation.TransGen.head' first rest)

end NewEdges

end Clepsydra.Library.Search
