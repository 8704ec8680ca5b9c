import Clepsydra.Board.Blockers
import Clepsydra.Library.ShortestSearch

/-!
Owns: the graph a proposed list of blockers would leave, and the loops of `find_cycle`.

Proves: it ends, and finds a shortest cycle through the task exactly when there is one.
-/

namespace Clepsydra.Board

open Library Library.Search List

variable {nodes : TaskNodes} {code : String} {proposed : List String}

/-- What each task is blocked by once the proposed list replaces that of `code`. -/
def TaskNodes.replaced (nodes : TaskNodes) (code : String) (proposed : List String)
    (task : String) : List String :=
  if task = code then proposed else nodes.blockers task

def TaskNodes.Leads (nodes : TaskNodes) (code : String) (proposed : List String)
    (task blocker : String) : Prop :=
  blocker ∈ nodes.replaced code proposed task

/-- `find_cycle` with its two loops run until they end by themselves. -/
def Finishes (nodes : TaskNodes) (code : String) (proposed : List String)
    (result : Option (List String)) : Prop :=
  match expand code code ⟨[], []⟩ proposed with
  | none => result = some [code, code]
  | some frontier =>
    ∃ found, Ends nodes.blockers code frontier found ∧ match found with
        | none => result = none
        | some (current, reached) =>
          ∃ way, WaysBack reached.parent code current way
            ∧ result = some (code :: way.reverse ++ [code])

theorem replaced_self (nodes : TaskNodes) (code : String) (proposed : List String) :
    nodes.replaced code proposed code = proposed :=
  if_pos rfl

theorem replaced_of_ne {task : String} (other : task ≠ code) :
    nodes.replaced code proposed task = nodes.blockers task :=
  if_neg other

theorem find_of_recorded {parent : List (String × String)} {cursor origin : String}
    (distinct : (parent.map Prod.fst).Nodup) (recorded : (cursor, origin) ∈ parent) :
    parent.find? (fun reached => reached.1 = cursor) = some (cursor, origin) := by
  induction parent with
  | nil => exact absurd recorded not_mem_nil
  | cons first rest ih =>
    rw [map_cons, nodup_cons] at distinct
    rcases mem_cons.1 recorded with isFirst | inRest
    · rw [← isFirst, find?_cons_of_pos (by simp)]
    · have notFirst : first.1 ≠ cursor := by
        intro same
        exact distinct.1 (same ▸ mem_map_of_mem inRest)
      rw [find?_cons_of_neg (by simpa using notFirst)]
      exact ih distinct.2 inRest

theorem wayBack_of_waysBack {parent : List (String × String)} {cursor : String}
    {way : List String} (distinct : (parent.map Prod.fst).Nodup)
    (back : WaysBack parent code cursor way) :
    ∀ {fuel : Nat}, way.length < fuel → wayBack parent code fuel cursor = way := by
  induction back with
  | home =>
    intro fuel enough
    cases fuel with
    | zero => exact absurd enough (Nat.not_lt_zero _)
    | succ fuel => exact if_pos rfl
  | @hop cursor origin way away recorded _ ih =>
    intro fuel enough
    cases fuel with
    | zero => exact absurd enough (Nat.not_lt_zero _)
    | succ fuel =>
      rw [length_cons] at enough
      unfold wayBack
      rw [if_neg away, find_of_recorded distinct recorded]
      show cursor :: wayBack parent code fuel origin = cursor :: way
      rw [ih (by omega)]

/-! ### The cycle that is found -/

def Cycle (leads : String → String → Prop) (code : String) (inner : List String) : Prop :=
  List.IsChain leads (code :: (inner ++ [code]))

structure Shortest (leads : String → String → Prop) (code : String) (inner : List String) :
    Prop where
  cycle : Cycle leads code inner
  apart : code ∉ inner
  distinct : inner.Nodup
  shortest : ∀ other, Cycle leads code other → inner.length ≤ other.length

theorem expand_replaced (nodes : TaskNodes) (code : String) (proposed : List String) :
    expand code code ⟨[], []⟩ (nodes.replaced code proposed code)
      = expand code code ⟨[], []⟩ proposed := by
  rw [replaced_self]

/-- The way back is walked to its end, and closes a shortest cycle. -/
theorem way_of_search {fuel : Nat} {frontier reached : Frontier String} {current : String}
    (started : expand code code ⟨[], []⟩ proposed = some frontier)
    (found : search nodes.blockers code fuel frontier = some (current, reached)) :
    ∃ way, WaysBack reached.parent code current way
      ∧ wayBack reached.parent code (reached.parent.length + 1) current = way
      ∧ Shortest (nodes.Leads code proposed) code way.reverse := by
  rw [← expand_replaced nodes] at started
  have ⟨_, explored⟩ := explored_start started
  have ⟨depth, expanded, rest, explored, queue, closes⟩ :=
    explored_of_search (fun _ other => (replaced_of_ne other).symm) explored found
  have met : current ∈ reached.visited := by
    rw [explored.ranked.order, queue]
    exact mem_append_right _ mem_cons_self
  have ⟨way, back, long, facts, distinct⟩ :=
    explored.ranked.waysBack (mem_cons_of_mem code met) rfl
  have distinctVisited := (nodup_cons.1 explored.ranked.distinct).2
  have few : way.length ≤ reached.parent.length := by
    have within := (distinct.subperm fun node member => (facts node member).1).length_le
    unfold Frontier.visited at within
    rwa [length_map] at within
  refine ⟨way, back, wayBack_of_waysBack distinctVisited back (by omega), ?_, ?_, ?_, ?_⟩
  · exact back.isChain (fun step member => (explored.ranked.origin step member).2.1)
      (isChain_pair.2 closes)
  · rw [mem_reverse]
    intro again
    have deeper := (facts code again).2.1
    rw [explored.ranked.start] at deeper
    omega
  · exact nodup_reverse.2 distinct
  · intro other cycle
    rw [length_reverse, long]
    exact explored.shortest queue cycle

theorem finishes_findCycle (nodes : TaskNodes) (code : String) (proposed : List String) :
    Finishes nodes code proposed (findCycle nodes code proposed) := by
  unfold Finishes findCycle
  cases started : expand code code ⟨[], []⟩ proposed with
  | none => rfl
  | some frontier =>
    have ⟨within, fuelled, _⟩ := @started_within nodes code proposed frontier started
    refine ⟨_, ends_search (fun _ _ member => mem_possibleBlockers member) within fuelled, ?_⟩
    cases found : search nodes.blockers code ((possibleBlockers nodes proposed).length + 1)
        frontier with
    | none => simp only [found]
    | some last =>
      have ⟨way, back, walked, _⟩ := way_of_search started found
      simp only [found, walked]
      exact ⟨way, back, rfl⟩

theorem shortest_of_findCycle {path : List String}
    (found : findCycle nodes code proposed = some path) :
    ∃ inner, path = code :: (inner ++ [code]) ∧ Shortest (nodes.Leads code proposed) code inner := by
  unfold findCycle at found
  split at found
  · rename_i met
    have closes : nodes.Leads code proposed code code := by
      unfold TaskNodes.Leads
      rw [replaced_self]
      exact goal_mem_of_expand met
    exact ⟨[], (Option.some.inj found).symm, isChain_pair.2 closes, not_mem_nil,
      nodup_nil, fun _ _ => Nat.zero_le _⟩
  · rename_i frontier started
    split at found
    · cases found
    · rename_i current reached met
      have ⟨way, _, walked, shortest⟩ := way_of_search started met
      rw [walked] at found
      exact ⟨way.reverse, (Option.some.inj found).symm, shortest⟩

theorem transGen_of_cycle {leads : String → String → Prop} {start : String} :
    ∀ {inner : List String}, List.IsChain leads (start :: (inner ++ [code])) →
      Relation.TransGen leads start code := by
  intro inner
  induction inner generalizing start with
  | nil => exact fun chain => .single (isChain_pair.1 chain)
  | cons next inner ih =>
    intro chain
    rw [cons_append, isChain_cons_cons] at chain
    exact .head chain.1 (ih chain.2)

theorem acyclic_of_findCycle (nothing : findCycle nodes code proposed = none) :
    ¬Relation.TransGen (nodes.Leads code proposed) code code := by
  intro cycle
  have ⟨blocker, first, back⟩ := Relation.TransGen.head'_iff.1 cycle
  unfold TaskNodes.Leads at first
  rw [replaced_self] at first
  apply not_reaches_of_findCycle nothing blocker first
  apply reaches_source_before _ back
  intro task next other edge
  unfold TaskNodes.Leads at edge
  rwa [replaced_of_ne other] at edge

/-- **The search for a blocker cycle is exact**: it ends, with a shortest cycle if there is one. -/
theorem find_cycle_exact (nodes : TaskNodes) (code : String) (proposed : List String) :
    Finishes nodes code proposed (findCycle nodes code proposed)
      ∧ ((∃ path, findCycle nodes code proposed = some path)
          ↔ Relation.TransGen (nodes.Leads code proposed) code code)
      ∧ ∀ path, findCycle nodes code proposed = some path →
          ∃ inner, path = code :: (inner ++ [code])
            ∧ Shortest (nodes.Leads code proposed) code inner := by
  refine ⟨finishes_findCycle nodes code proposed, ⟨?_, ?_⟩, fun _ found =>
    shortest_of_findCycle found⟩
  · rintro ⟨path, found⟩
    have ⟨inner, _, shortest⟩ := shortest_of_findCycle found
    exact transGen_of_cycle shortest.cycle
  · intro cycle
    by_contra nothing
    rw [not_exists] at nothing
    exact acyclic_of_findCycle (Option.eq_none_iff_forall_ne_some.2 nothing) cycle

end Clepsydra.Board
