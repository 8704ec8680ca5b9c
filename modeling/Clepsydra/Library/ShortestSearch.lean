import Clepsydra.Library.Search

/-!
Owns: the depth at which a breadth-first search first meets each node, and the way back.

Proves: the search ends; the way back is a chain without repetition, and a shortest cycle.
-/

namespace Clepsydra.Library.Search

open List Function

variable {α : Type} [DecidableEq α]

/-! ### The end of the loop -/

inductive Ends (successors : α → List α) (goal : α) : Frontier α → Option (α × Frontier α) → Prop
  | empty {frontier : Frontier α} (emptyQueue : frontier.queue = []) :
      Ends successors goal frontier none
  | found {frontier : Frontier α} {current : α} {rest : List α}
      (queue : frontier.queue = current :: rest)
      (met : expand goal current ⟨frontier.parent, rest⟩ (successors current) = none) :
      Ends successors goal frontier (some (current, frontier))
  | next {frontier next : Frontier α} {current : α} {rest : List α}
      {result : Option (α × Frontier α)} (queue : frontier.queue = current :: rest)
      (expanded : expand goal current ⟨frontier.parent, rest⟩ (successors current) = some next)
      (ends : Ends successors goal next result) : Ends successors goal frontier result

theorem ends_search {successors : α → List α} {goal : α} {targets : List α}
    (possible : ∀ node, ∀ next ∈ successors node, next ∈ targets) :
    ∀ {fuel : Nat} {frontier : Frontier α}, frontier.Within targets →
      frontier.Fuelled targets fuel →
      Ends successors goal frontier (search successors goal fuel frontier) := by
  intro fuel
  induction fuel with
  | zero =>
    intro frontier within fuelled
    have few := within.length_le
    unfold Frontier.Fuelled at fuelled
    omega
  | succ fuel ih =>
    intro frontier within fuelled
    unfold search
    split
    · rename_i emptyQueue
      exact .empty emptyQueue
    · rename_i current rest queue
      split
      · rename_i met
        exact .found queue met
      · rename_i next expanded
        obtain ⟨nextWithin, nextFuelled, _⟩ :=
          expands_of_expand (possible current) (within.pop queue) (fuelled.pop queue) expanded
        exact .next queue expanded (ih nextWithin nextFuelled)

/-! ### Depths -/

section Depths

variable {edges successors : α → List α} {goal current : α} {depth : α → Nat}
  {expanded : List α} {frontier : Frontier α}

/-- The visited nodes in the order they were met, which is that of depth. -/
structure Ranked (edges : α → List α) (goal : α) (depth : α → Nat) (expanded : List α)
    (frontier : Frontier α) : Prop where
  order : frontier.visited = expanded ++ frontier.queue
  distinct : (goal :: frontier.visited).Nodup
  start : depth goal = 0
  origin : ∀ step ∈ frontier.parent, step.2 ∈ goal :: expanded ∧ step.1 ∈ edges step.2
    ∧ depth step.1 = depth step.2 + 1
  sorted : frontier.visited.Pairwise fun earlier later => depth earlier ≤ depth later

/-- The successors were met, none is the goal, and none lies deeper than the next level. -/
def Settled (edges : α → List α) (goal : α) (depth : α → Nat) (frontier : Frontier α)
    (node : α) : Prop :=
  ∀ next ∈ edges node, next ≠ goal ∧ next ∈ frontier.visited ∧ depth next ≤ depth node + 1

structure Continues (goal : α) (depth laterDepth : α → Nat) (frontier later : Frontier α) :
    Prop where
  met : ∀ node ∈ frontier.visited, node ∈ later.visited
  same : ∀ node ∈ goal :: frontier.visited, laterDepth node = depth node

omit [DecidableEq α] in
theorem Continues.settled {laterDepth : α → Nat} {later : Frontier α} {node : α}
    (continues : Continues goal depth laterDepth frontier later)
    (known : node ∈ goal :: frontier.visited) (settled : Settled edges goal depth frontier node) :
    Settled edges goal laterDepth later node := by
  intro next edge
  have ⟨notGoal, met, near⟩ := settled next edge
  refine ⟨notGoal, continues.met next met, ?_⟩
  rw [continues.same next (mem_cons_of_mem goal met), continues.same node known]
  exact near

theorem Ranked.visit {node : α} (ranked : Ranked edges goal depth expanded frontier)
    (origin : current ∈ goal :: expanded) (edge : node ∈ edges current) (notGoal : node ≠ goal)
    (level : ∀ other ∈ frontier.visited, depth other ≤ depth current + 1) :
    ∃ laterDepth, Ranked edges goal laterDepth expanded (frontier.visit current node)
      ∧ Continues goal depth laterDepth frontier (frontier.visit current node)
      ∧ ∀ other ∈ (frontier.visit current node).visited,
          laterDepth other ≤ laterDepth current + 1 := by
  unfold Frontier.visit
  split_ifs with seen
  · exact ⟨depth, ranked, ⟨fun _ met => met, fun _ _ => rfl⟩, level⟩
  have known : ∀ other ∈ goal :: expanded, other ∈ goal :: frontier.visited := by
    intro other member
    rw [ranked.order]
    exact mem_cons.2 ((mem_cons.1 member).imp_right (mem_append_left _))
  have same : ∀ other ∈ goal :: frontier.visited,
      update depth node (depth current + 1) other = depth other := by
    intro other member
    apply update_of_ne
    intro isNode
    rw [isNode] at member
    exact (mem_cons.1 member).elim notGoal seen
  have currentSame := same current (known current origin)
  have visited : Frontier.visited ⟨frontier.parent ++ [(node, current)], frontier.queue ++ [node]⟩
      = frontier.visited ++ [node] := by
    unfold Frontier.visited
    rw [map_append]
    rfl
  refine ⟨update depth node (depth current + 1), ⟨?_, ?_, ?_, ?_, ?_⟩, ⟨?_, same⟩, ?_⟩
  · rw [visited, ranked.order, append_assoc]
  · rw [visited, ← cons_append, nodup_append]
    refine ⟨ranked.distinct, nodup_singleton node, ?_⟩
    intro other member last inLast
    rw [mem_singleton.1 inLast]
    intro isNode
    rw [isNode] at member
    exact (mem_cons.1 member).elim notGoal seen
  · rw [same goal mem_cons_self]
    exact ranked.start
  · intro step member
    rcases mem_append.1 member with old | new
    · have ⟨originKnown, stepEdge, deeper⟩ := ranked.origin step old
      refine ⟨originKnown, stepEdge, ?_⟩
      rw [same step.2 (known step.2 originKnown), same step.1
        (mem_cons_of_mem goal (mem_map_of_mem old))]
      exact deeper
    · rw [mem_singleton.1 new]
      refine ⟨origin, edge, ?_⟩
      rw [currentSame]
      exact update_self ..
  · rw [visited, pairwise_append]
    refine ⟨ranked.sorted.imp_of_mem ?_, pairwise_singleton _ node, ?_⟩
    · intro earlier later earlierMet laterMet sorted
      rw [same earlier (mem_cons_of_mem goal earlierMet),
        same later (mem_cons_of_mem goal laterMet)]
      exact sorted
    · intro earlier met last inLast
      rw [mem_singleton.1 inLast, update_self, same earlier (mem_cons_of_mem goal met)]
      exact level earlier met
  · intro other met
    rw [visited]
    exact mem_append_left _ met
  · intro other met
    rw [visited] at met
    rw [currentSame]
    rcases mem_append.1 met with old | new
    · rw [same other (mem_cons_of_mem goal old)]
      exact level other old
    · rw [mem_singleton.1 new, update_self]

theorem Ranked.expand {nodes : List α} (origin : current ∈ goal :: expanded)
    (edge : ∀ node ∈ nodes, node ∈ edges current) :
    ∀ {depth : α → Nat} {frontier next : Frontier α}, Ranked edges goal depth expanded frontier →
      (∀ other ∈ frontier.visited, depth other ≤ depth current + 1) →
      Search.expand goal current frontier nodes = some next →
      ∃ laterDepth, Ranked edges goal laterDepth expanded next
        ∧ Continues goal depth laterDepth frontier next
        ∧ (∀ other ∈ next.visited, laterDepth other ≤ laterDepth current + 1)
        ∧ ∀ node ∈ nodes, node ≠ goal ∧ node ∈ next.visited := by
  induction nodes with
  | nil =>
    intro depth frontier next ranked level met
    rw [← Option.some.inj met]
    exact ⟨depth, ranked, ⟨fun _ old => old, fun _ _ => rfl⟩, level, forall_mem_nil _⟩
  | cons node rest ih =>
    intro depth frontier next ranked level met
    unfold Search.expand at met
    split_ifs at met with isGoal
    obtain ⟨firstDepth, firstRanked, firstContinues, firstLevel⟩ :=
      ranked.visit origin (edge node mem_cons_self) isGoal level
    obtain ⟨laterDepth, laterRanked, laterContinues, laterLevel, reaches⟩ :=
      ih (fun other member => edge other (mem_cons_of_mem node member))
        firstRanked firstLevel met
    refine ⟨laterDepth, laterRanked, ⟨?_, ?_⟩, laterLevel, ?_⟩
    · exact fun other old => laterContinues.met other (firstContinues.met other old)
    · intro other known
      have stillKnown : other ∈ goal :: (frontier.visit current node).visited :=
        mem_cons.2 ((mem_cons.1 known).imp_right (firstContinues.met other))
      rw [laterContinues.same other stillKnown, firstContinues.same other known]
    · intro other member
      rcases mem_cons.1 member with isNode | inRest
      · rw [isNode]
        exact ⟨isGoal, laterContinues.met node (visited_visit.2 (.inr rfl))⟩
      · exact reaches other inRest

theorem goal_mem_of_expand {nodes : List α} :
    ∀ {frontier : Frontier α}, expand goal current frontier nodes = none → goal ∈ nodes := by
  induction nodes with
  | nil => exact fun met => nomatch met
  | cons node rest ih =>
    intro frontier met
    unfold expand at met
    split_ifs at met with isGoal
    · exact isGoal ▸ mem_cons_self
    · exact mem_cons_of_mem node (ih met)

structure Explored (edges : α → List α) (goal : α) (depth : α → Nat) (expanded : List α)
    (frontier : Frontier α) : Prop where
  ranked : Ranked edges goal depth expanded frontier
  settled : ∀ node ∈ goal :: expanded, Settled edges goal depth frontier node
  near : ∀ other ∈ frontier.visited, ∀ waiting ∈ frontier.queue, depth other ≤ depth waiting + 1

theorem explored_start (met : expand goal goal ⟨[], []⟩ (edges goal) = some frontier) :
    ∃ depth, Explored edges goal depth [] frontier := by
  have ranked : Ranked edges goal (fun _ => 0) [] ⟨[], []⟩ :=
    ⟨rfl, nodup_singleton goal, rfl, forall_mem_nil _, .nil⟩
  have ⟨depth, frontierRanked, _, level, reaches⟩ :=
    ranked.expand mem_cons_self (fun _ member => member) (forall_mem_nil _) met
  refine ⟨depth, frontierRanked, ?_, ?_⟩
  · intro node isGoal next edge
    rw [mem_singleton.1 isGoal] at edge ⊢
    exact ⟨(reaches next edge).1, (reaches next edge).2, level next (reaches next edge).2⟩
  · intro other member waiting _
    have shallow := level other member
    rw [frontierRanked.start] at shallow
    omega

theorem Explored.next {next : Frontier α} {rest : List α}
    (explored : Explored edges goal depth expanded frontier)
    (queue : frontier.queue = current :: rest)
    (met : expand goal current ⟨frontier.parent, rest⟩ (edges current) = some next) :
    ∃ laterDepth, Explored edges goal laterDepth (expanded ++ [current]) next := by
  have ⟨ranked, settled, near⟩ := explored
  have order : frontier.visited = (expanded ++ [current]) ++ rest := by
    rw [ranked.order, queue, append_assoc]
    rfl
  have expandedMet : ∀ node ∈ goal :: (expanded ++ [current]), node ∈ goal :: frontier.visited := by
    intro node member
    rw [order]
    exact mem_cons.2 ((mem_cons.1 member).imp_right (mem_append_left _))
  have popped : Ranked edges goal depth (expanded ++ [current]) ⟨frontier.parent, rest⟩ := by
    refine ⟨order, ranked.distinct, ranked.start, ?_, ranked.sorted⟩
    intro step member
    have ⟨origin, edge, deeper⟩ := ranked.origin step member
    exact ⟨mem_cons.2 ((mem_cons.1 origin).imp_right (mem_append_left _)), edge, deeper⟩
  have level : ∀ other ∈ frontier.visited, depth other ≤ depth current + 1 := by
    intro other member
    exact near other member current (queue ▸ mem_cons_self)
  have currentLast : current ∈ goal :: (expanded ++ [current]) := by simp
  have ⟨laterDepth, laterRanked, continues, laterLevel, reaches⟩ :=
    popped.expand currentLast (fun _ member => member) level met
  refine ⟨laterDepth, laterRanked, ?_, ?_⟩
  · intro node member
    by_cases isCurrent : node = current
    · rw [isCurrent]
      intro successor edge
      exact ⟨(reaches successor edge).1, (reaches successor edge).2,
        laterLevel successor (reaches successor edge).2⟩
    · have before : node ∈ goal :: expanded := by
        simpa [isCurrent] using member
      exact continues.settled (expandedMet node member) (settled node before)
  · intro other member waiting inQueue
    -- the node just expanded comes before all that still wait
    have sorted := laterRanked.sorted
    rw [laterRanked.order, pairwise_append] at sorted
    have shallow := sorted.2.2 current (by simp) waiting inQueue
    have nearCurrent := laterLevel other member
    omega

theorem explored_of_search (others : ∀ node, node ≠ goal → successors node = edges node) :
    ∀ {fuel : Nat} {depth : α → Nat} {expanded : List α} {frontier reached : Frontier α},
      Explored edges goal depth expanded frontier →
      search successors goal fuel frontier = some (current, reached) →
      ∃ depth expanded rest, Explored edges goal depth expanded reached
        ∧ reached.queue = current :: rest ∧ goal ∈ edges current := by
  intro fuel
  induction fuel with
  | zero =>
    intro depth expanded frontier reached explored found
    cases found
  | succ fuel ih =>
    intro depth expanded frontier reached explored found
    unfold search at found
    split at found
    · cases found
    · rename_i first rest queue
      have notGoal : first ≠ goal := by
        intro isGoal
        have distinct := explored.ranked.distinct
        rw [explored.ranked.order, queue, isGoal, nodup_cons] at distinct
        exact distinct.1 (mem_append_right _ mem_cons_self)
      rw [others first notGoal] at found
      split at found
      · rename_i met
        obtain ⟨isCurrent, isReached⟩ := Prod.mk.inj (Option.some.inj found)
        rw [← isCurrent, ← isReached]
        exact ⟨depth, expanded, rest, explored, queue, goal_mem_of_expand met⟩
      · rename_i next met
        obtain ⟨laterDepth, laterExplored⟩ := explored.next queue met
        exact ih laterExplored found

variable (explored : Explored edges goal depth expanded frontier)

include explored

theorem Explored.expanded_of_shallow {node : α} {rest : List α}
    (queue : frontier.queue = current :: rest) (known : node ∈ goal :: frontier.visited)
    (shallow : depth node < depth current) : node ∈ goal :: expanded := by
  have sorted := explored.ranked.sorted
  rw [explored.ranked.order, queue, pairwise_append, pairwise_cons] at sorted
  rw [explored.ranked.order, queue, ← cons_append, mem_append] at known
  rcases known with done | inQueue
  · exact done
  rcases mem_cons.1 inQueue with isCurrent | waits
  · rw [isCurrent] at shallow
    omega
  · have deeper := sorted.2.1.1 node waits
    omega

theorem Explored.not_isChain {rest : List α} (queue : frontier.queue = current :: rest) :
    ∀ {inner : List α} {node : α}, node ∈ goal :: frontier.visited →
      depth node + inner.length < depth current →
      ¬List.IsChain (fun node next => next ∈ edges node) (node :: (inner ++ [goal])) := by
  intro inner
  induction inner with
  | nil =>
    intro node known shallow chain
    exact (explored.settled node (explored.expanded_of_shallow queue known (by simpa using shallow))
      goal (isChain_pair.1 chain)).1 rfl
  | cons next inner ih =>
    intro node known shallow chain
    rw [length_cons] at shallow
    rw [cons_append, isChain_cons_cons] at chain
    have settled := explored.settled node
      (explored.expanded_of_shallow queue known (by omega)) next chain.1
    exact ih (mem_cons_of_mem goal settled.2.1) (by omega) chain.2

theorem Explored.shortest {inner rest : List α} (queue : frontier.queue = current :: rest)
    (cycle : List.IsChain (fun node next => next ∈ edges node) (goal :: (inner ++ [goal]))) :
    depth current ≤ inner.length := by
  by_contra shorter
  apply explored.not_isChain queue mem_cons_self _ cycle
  rw [explored.ranked.start]
  omega

end Depths

/-! ### The way back -/

inductive WaysBack (parent : List (α × α)) (goal : α) : α → List α → Prop
  | home : WaysBack parent goal goal []
  | hop {cursor origin : α} {way : List α} (away : cursor ≠ goal)
      (recorded : (cursor, origin) ∈ parent) (back : WaysBack parent goal origin way) :
      WaysBack parent goal cursor (cursor :: way)

section WayBack

omit [DecidableEq α]

variable {edges : α → List α} {goal : α} {depth : α → Nat} {expanded : List α}
  {frontier : Frontier α}

theorem Ranked.waysBack (ranked : Ranked edges goal depth expanded frontier) :
    ∀ {level : Nat} {node : α}, node ∈ goal :: frontier.visited → depth node = level →
      ∃ way, WaysBack frontier.parent goal node way ∧ way.length = level
        ∧ (∀ other ∈ way, other ∈ frontier.visited ∧ 0 < depth other ∧ depth other ≤ level)
        ∧ way.Nodup := by
  intro level
  induction level with
  | zero =>
    intro node known atStart
    rcases mem_cons.1 known with isGoal | met
    · rw [isGoal]
      exact ⟨[], .home, rfl, forall_mem_nil _, nodup_nil⟩
    · have ⟨step, recorded, isNode⟩ := mem_map.1 met
      have deeper := (ranked.origin step recorded).2.2
      rw [isNode] at deeper
      omega
  | succ level ih =>
    intro node known below
    have away : node ≠ goal := by
      intro isGoal
      rw [isGoal, ranked.start] at below
      omega
    have met := (mem_cons.1 known).resolve_left away
    have ⟨step, recorded, isNode⟩ := mem_map.1 met
    have ⟨origin, _, deeper⟩ := ranked.origin step recorded
    have originKnown : step.2 ∈ goal :: frontier.visited := by
      rw [ranked.order]
      exact mem_cons.2 ((mem_cons.1 origin).imp_right (mem_append_left _))
    rw [isNode, below] at deeper
    have ⟨way, back, long, shallow, distinct⟩ := ih originKnown (by omega)
    have recordedNode : (node, step.2) ∈ frontier.parent := isNode ▸ recorded
    refine ⟨node :: way, .hop away recordedNode back, ?_, ?_, ?_⟩
    · rw [length_cons, long]
    · intro other member
      rcases mem_cons.1 member with isFirst | inWay
      · rw [isFirst]
        exact ⟨met, by omega, by omega⟩
      · have facts := shallow other inWay
        exact ⟨facts.1, facts.2.1, by omega⟩
    · rw [nodup_cons]
      refine ⟨fun again => ?_, distinct⟩
      have facts := shallow node again
      omega

theorem WaysBack.isChain {parent : List (α × α)} {node : α} {way tail : List α}
    (back : WaysBack parent goal node way)
    (follows : ∀ step ∈ parent, step.1 ∈ edges step.2)
    (chain : List.IsChain (fun node next => next ∈ edges node) (node :: tail)) :
    List.IsChain (fun node next => next ∈ edges node) (goal :: (way.reverse ++ tail)) := by
  induction back generalizing tail with
  | home => exact chain
  | @hop cursor origin way _ recorded _ ih =>
    rw [reverse_cons, append_assoc, singleton_append]
    exact ih (.cons_cons (follows _ recorded) chain)

end WayBack

end Clepsydra.Library.Search
