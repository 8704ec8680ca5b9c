import Clepsydra.Library.Search
import Clepsydra.Library.Table
import Clepsydra.Vault.Canonical

/-!
Owns: the graph of tasks behind `blocked_by`, and the search for a cycle.

Proves: a list for which the search finds nothing leads nowhere back to its task.
-/

namespace Clepsydra.Board

open Library Library.Search Vault List

/-! ### Fields of a page -/

/-- A frontmatter value as the board reads it. -/
inductive FieldValue where
  | text (value : String)
  | texts (values : List String)
  | scalar (shown : String)
  | other
deriving DecidableEq

abbrev Extra := List (String × FieldValue)

namespace Extra

def get (extra : Extra) (key : String) : Option FieldValue :=
  (extra.find? fun field => field.1 = key).map Prod.snd

def remove (extra : Extra) (key : String) : Extra := extra.filter fun field => field.1 ≠ key

def insert (extra : Extra) (key : String) (value : FieldValue) : Extra :=
  (key, value) :: extra.remove key

theorem get_remove (extra : Extra) (key other : String) :
    (extra.remove key).get other = if other = key then none else extra.get other := by
  unfold get remove
  rw [find?_filter]
  by_cases same : other = key
  · rw [if_pos same, Option.map_eq_none_iff, find?_eq_none]
    intro field _
    simp [same]
  · rw [if_neg same]
    congr 2
    funext field
    by_cases here : field.1 = other
    · simp [here, same]
    · simp [here]

theorem get_insert (extra : Extra) (key other : String) (value : FieldValue) :
    (extra.insert key value).get other = if other = key then some value else extra.get other := by
  by_cases same : other = key
  · simp [insert, get, same]
  · have removed := get_remove extra key other
    rw [if_neg same] at removed ⊢
    rw [← removed]
    unfold insert get
    rw [find?_cons_of_neg (by simpa using Ne.symm same)]

end Extra

/-- `extra_str`. -/
def extraStr (extra : Extra) (key : String) : Option String :=
  match extra.get key with
  | some (.text value) => if trim value = "" then none else some (trim value)
  | some (.scalar shown) => some shown
  | _ => none

/-! ### Blocker references -/

def blockedByKey : String := "blocked_by"

def defaultStatus : String := "INTAKE"

/-- `blocker_target`: a reference without its wikilink syntax. -/
def blockerTarget (raw : String) : Option String :=
  let trimmed := trim raw
  let inner := ((stripStart "[[" trimmed).bind (stripEnd "]]")).getD trimmed
  let target := trim (String.ofList (inner.toList.takeWhile (· ≠ '|')))
  if target = "" then none else some target

def wikilink (code : String) : String := "[[" ++ code ++ "]]"

/-- `blocked_by_targets`. -/
def blockedByTargets (extra : Extra) : List String :=
  match extra.get blockedByKey with
  | some (.texts values) => values.filterMap blockerTarget
  | some (.text value) => (blockerTarget value).toList
  | _ => []

/-! ### Nodes -/

structure TaskNode where
  code : String
  status : String
  blockedBy : List String

abbrev TaskNodes := Table String TaskNode TaskNode.code

structure TaskPage where
  code : String
  title : Option String
  tags : List String
  project : Option String
  extra : Extra
  updatedAt : Nat
  body : String
deriving DecidableEq

abbrev Tasks := Table String TaskPage TaskPage.code

def Tasks.codes (tasks : Tasks) : List String := tasks.rows.map TaskPage.code

/-- The last task whose code has the same lowercase form, or the text itself. -/
def resolveTarget (unicode : Unicode) (codes : List String) (target : String) : String :=
  (codes.reverse.find? fun code =>
    unicode.toLowercase code = unicode.toLowercase target).getD target

def taskNode (unicode : Unicode) (codes : List String) (page : TaskPage) : TaskNode where
  code := page.code
  status := (extraStr page.extra "status").getD defaultStatus
  blockedBy := ((blockedByTargets page.extra).map (resolveTarget unicode codes)).eraseDups

/-- `task_nodes_from`. -/
def taskNodesFrom (unicode : Unicode) (tasks : Tasks) : TaskNodes where
  rows := (tasks.rows.map (taskNode unicode tasks.codes)).insertionSort fun left right =>
    left.code ≤ right.code
  distinct := by
    have sameCodes : (tasks.rows.map (taskNode unicode tasks.codes)).map TaskNode.code
        = tasks.rows.map TaskPage.code := by
      rw [map_map]
      rfl
    have permuted := (perm_insertionSort (fun left right : TaskNode => left.code ≤ right.code)
      (tasks.rows.map (taskNode unicode tasks.codes))).map TaskNode.code
    rw [permuted.nodup_iff, sameCodes]
    exact tasks.distinct

def TaskNodes.blockers (nodes : TaskNodes) (code : String) : List String :=
  match nodes.get code with
  | none => []
  | some node => node.blockedBy

def TaskNodes.Blocked (nodes : TaskNodes) (code blocker : String) : Prop :=
  blocker ∈ nodes.blockers code

def TaskNodes.Acyclic (nodes : TaskNodes) : Prop :=
  ∀ code, ¬Relation.TransGen nodes.Blocked code code

/-! ### The search for a cycle -/

def wayBack (parent : List (String × String)) (code : String) : Nat → String → List String
  | 0, _ => []
  | fuel + 1, cursor =>
    if cursor = code then []
    else
      match parent.find? fun reached => reached.1 = cursor with
      | none => [cursor]
      | some reached => cursor :: wayBack parent code fuel reached.2

def possibleBlockers (nodes : TaskNodes) (proposed : List String) : List String :=
  proposed ++ nodes.rows.flatMap TaskNode.blockedBy

/-- `find_cycle`. -/
def findCycle (nodes : TaskNodes) (code : String) (proposed : List String) : Option (List String) :=
  match expand code code ⟨[], []⟩ proposed with
  | none => some [code, code]
  | some frontier =>
    match search nodes.blockers code ((possibleBlockers nodes proposed).length + 1) frontier with
    | none => none
    | some (current, reached) =>
      some (code :: (wayBack reached.parent code (reached.parent.length + 1) current).reverse
        ++ [code])

theorem mem_possibleBlockers {nodes : TaskNodes} {proposed : List String} {code blocker : String}
    (blocked : blocker ∈ nodes.blockers code) : blocker ∈ possibleBlockers nodes proposed := by
  unfold TaskNodes.blockers at blocked
  split at blocked
  · exact absurd blocked not_mem_nil
  · rename_i node found
    exact mem_append_right _ (mem_flatMap.2 ⟨node, Table.mem_of_get found, blocked⟩)

theorem started_within {nodes : TaskNodes} {code : String} {proposed : List String}
    {frontier : Frontier String} (started : expand code code ⟨[], []⟩ proposed = some frontier) :
    frontier.Within (possibleBlockers nodes proposed)
      ∧ frontier.Fuelled (possibleBlockers nodes proposed)
          ((possibleBlockers nodes proposed).length + 1)
      ∧ Expands ⟨[], []⟩ frontier code proposed := by
  have emptyWithin : Frontier.Within ⟨[], []⟩ (possibleBlockers nodes proposed) :=
    ⟨nodup_nil, fun _ member => absurd member not_mem_nil,
      fun _ member => absurd member not_mem_nil⟩
  have emptyFuelled : Frontier.Fuelled ⟨[], []⟩ (possibleBlockers nodes proposed)
      ((possibleBlockers nodes proposed).length + 1) := by
    unfold Frontier.Fuelled
    simp [Frontier.visited]
  exact expands_of_expand (fun _ member => mem_append_left _ member) emptyWithin emptyFuelled
    started

theorem not_reaches_of_findCycle {nodes : TaskNodes} {code : String} {proposed : List String}
    (none : findCycle nodes code proposed = none) :
    ∀ blocker ∈ proposed, ¬Relation.ReflTransGen nodes.Blocked blocker code := by
  unfold findCycle at none
  split at none
  · cases none
  · rename_i frontier started
    split at none
    · rename_i nothing
      obtain ⟨within, fuelled, _, reaches, queues⟩ := started_within started
      have closed : frontier.Closed nodes.blockers code := by
        intro node visited notQueued
        exact absurd (queues node visited notQueued).1 not_mem_nil
      obtain ⟨stays, contains, leads⟩ :=
        closed_of_search (fun _ _ member => mem_possibleBlockers member) within fuelled closed nothing
      intro blocker member
      have reached := reaches blocker member
      exact not_reaches_of_closed leads (contains blocker reached.2) reached.1
    · cases none

end Clepsydra.Board
