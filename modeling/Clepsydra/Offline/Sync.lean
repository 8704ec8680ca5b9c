import Clepsydra.Library.JsText
import Clepsydra.Library.Transitions

/-!
Owns: the passes that keep the offline copy up to date, `OfflineSyncController`.

Proves: when no pass meets a path upserted after its removal, and none starts offline, the copy
follows the last event of every path once nothing is left to do.
-/

namespace Clepsydra.Offline.Sync

open Library Library.Transitions List

/-! ### Keys -/

variable {path key : String}

/-- `PAGE_KEY_PREFIXES`. -/
def pageKeyPrefixes : List String :=
  ["/api/vault/pages/", "/api/vault/index/backlinks/", "/api/vault/index/outlinks/"]

/-- `pageCacheKeys`. -/
def pageCacheKeys (path : String) : List String :=
  pageKeyPrefixes.map fun start => start ++ encodeURIComponent path

/-- The paths of the requests of `WALK_SET`. -/
def walkSet : List String :=
  ["/api/vault/pages", "/api/vault/folders/tree", "/api/vault/index/tags",
    "/api/vault/index/stats", "/api/vault/index/graph", "/api/vault/journal/today",
    "/api/vault/journal/recent", "/api/vault/ai-journal/today", "/api/vault/ai-journal/recent",
    "/api/vault/board", "/api/vault/agenda", "/api/vault/tasks", "/api/vault/bases",
    "/api/features"]

def isPageScoped (key : String) : Bool :=
  pageKeyPrefixes.any fun start => start.toList.isPrefixOf key.toList

theorem mem_pageCacheKeys :
    key ∈ pageCacheKeys path ↔ ∃ start ∈ pageKeyPrefixes, start ++ encodeURIComponent path = key :=
  mem_map

theorem isPageScoped_of_mem (member : key ∈ pageCacheKeys path) : isPageScoped key = true := by
  obtain ⟨start, found, rfl⟩ := mem_pageCacheKeys.1 member
  rw [isPageScoped, any_eq_true]
  refine ⟨start, found, ?_⟩
  rw [List.isPrefixOf_iff_prefix, String.toList_append]
  exact prefix_append _ _

theorem not_mem_walkSet (member : key ∈ pageCacheKeys path) : key ∉ walkSet := by
  intro walked
  have outOfScope : ∀ other ∈ walkSet, isPageScoped other = false := by decide
  have inScope := isPageScoped_of_mem member
  rw [outOfScope key walked] at inScope
  contradiction

theorem pageKeyPrefix_eq : ∀ left ∈ pageKeyPrefixes, ∀ right ∈ pageKeyPrefixes,
    left.toList <+: right.toList → left = right := by
  decide

theorem path_eq_of_mem {left right : String} (ofLeft : key ∈ pageCacheKeys left)
    (ofRight : key ∈ pageCacheKeys right) : left = right := by
  have ⟨first, firstIn, firstKey⟩ := mem_pageCacheKeys.1 ofLeft
  have ⟨second, secondIn, secondKey⟩ := mem_pageCacheKeys.1 ofRight
  have firstBegins : first.toList <+: key.toList := by
    rw [← firstKey, String.toList_append]
    exact prefix_append _ _
  have secondBegins : second.toList <+: key.toList := by
    rw [← secondKey, String.toList_append]
    exact prefix_append _ _
  have same : first = second := by
    obtain begins | begins := prefix_or_prefix_of_prefix firstBegins secondBegins
    · exact pageKeyPrefix_eq first firstIn second secondIn begins
    · exact (pageKeyPrefix_eq second secondIn first firstIn begins).symm
  rw [← secondKey, same] at firstKey
  exact encodeURIComponent_injective (String.append_right_inj second |>.1 firstKey)

/-! ### The controller -/

inductive Kind where
  | upserted
  | removed
deriving DecidableEq

/-- `pendingDelta`: two sets, in the order of insertion. -/
structure Window where
  upserted : List String
  removed : List String
deriving DecidableEq

def Window.paths (window : Window) : Kind → List String
  | .upserted => window.upserted
  | .removed => window.removed

def insertAll (set added : List String) : List String :=
  added.foldl (fun current path => if path ∈ current then current else current ++ [path]) set

inductive Pass where
  | listing
  | full (paths remaining : List String)
  | delta (removed remaining : List String)
deriving DecidableEq

structure State where
  /-- The pages of the server. -/
  server : List String
  /-- The last event of each path. -/
  latest : String → Option Kind
  pendingFull : Bool
  pendingDelta : Option Window
  /-- `running`. -/
  pass : Option Pass
  /-- The paths of the requests whose answers are kept. -/
  cache : List String

def State.initial (server cache : List String) : State where
  server := server
  latest := fun _ => none
  pendingFull := false
  pendingDelta := none
  pass := none
  cache := cache

/-- `requestDelta`. -/
def State.requestDelta (state : State) (upserted removed : List String) : State :=
  let window := state.pendingDelta.getD ⟨[], []⟩
  { state with
    pendingDelta := some ⟨insertAll window.upserted upserted, insertAll window.removed removed⟩ }

def State.change (state : State) (upserted removed : List String) : State := { state with
    server := insertAll (state.server.filter fun path => path ∉ removed) upserted
    latest := fun path =>
      if path ∈ upserted then some .upserted
      else if path ∈ removed then some .removed
      else state.latest path }

/-- `pruneMissingPages`. -/
def pruneMissingPages (cache keep : List String) : List String :=
  let keepKeys := keep.flatMap pageCacheKeys
  cache.filter fun key => !(isPageScoped key && !keepKeys.contains key)

/-- `deletePages`. -/
def deletePages (cache paths : List String) : List String :=
  cache.filter fun key => !paths.any fun path => (pageCacheKeys path).contains key

/-- The start of a round of `drain`; a pass that starts offline is over at once. -/
def State.drain (state : State) (online : Bool) : Option State :=
  match state.pass, state.pendingFull, state.pendingDelta with
  | some _, _, _ | none, false, none => none
  | none, true, _ =>
    some { state with
      pendingFull := false
      pendingDelta := none
      pass := if online then some .listing else none }
  | none, false, some window =>
    some { state with
      pendingDelta := none
      pass :=
        if online then
          some (.delta window.removed (window.upserted.flatMap pageCacheKeys ++ walkSet))
        else none }

/-- `listPagePaths` is answered. -/
def State.list (state : State) : Option State :=
  match state.pass with
  | some .listing =>
    some { state with
      pass := some (.full state.server
        (state.server.flatMap pageCacheKeys ++ walkSet.filter fun key =>
          key ≠ "/api/vault/pages")) }
  | _ => none

/-- A request of `runPool` is answered, and the answer is kept. -/
def State.fetch (state : State) (key : String) : Option State :=
  match state.pass with
  | some (.full paths remaining) =>
    if key ∈ remaining then
      some { state with
        pass := some (.full paths (remaining.erase key))
        cache := insertAll state.cache [key] }
    else none
  | some (.delta removed remaining) =>
    if key ∈ remaining then
      some { state with
        pass := some (.delta removed (remaining.erase key))
        cache := insertAll state.cache [key] }
    else none
  | _ => none

def State.finish (state : State) : Option State :=
  match state.pass with
  | some (.full paths []) =>
    some { state with pass := none, cache := pruneMissingPages state.cache paths }
  | some (.delta removed []) =>
    some { state with pass := none, cache := deletePages state.cache removed }
  | _ => none

inductive Action where
  | changed (upserted removed : List String)
  | requestFull
  | drain (online : Bool)
  | list
  | fetch (key : String)
  | finish
deriving DecidableEq

def step (state : State) : Action → Option State
  | .changed upserted removed =>
    if ∃ path ∈ upserted, path ∈ removed then none
    else some ((state.change upserted removed).requestDelta upserted removed)
  | .requestFull => some { state with pendingFull := true }
  | .drain online => state.drain online
  | .list => state.list
  | .fetch key => state.fetch key
  | .finish => state.finish

def State.Idle (state : State) : Prop :=
  state.pass = none ∧ state.pendingFull = false ∧ state.pendingDelta = none

/-! ### Sets -/

theorem mem_insertAll {set added : List String} :
    path ∈ insertAll set added ↔ path ∈ set ∨ path ∈ added := by
  unfold insertAll
  induction added generalizing set with
  | nil => simp
  | cons head tail ih =>
    rw [foldl_cons, ih, mem_cons]
    by_cases present : head ∈ set
    · rw [if_pos present]
      constructor
      · exact fun found => found.imp id Or.inr
      · rintro (found | rfl | found)
        · exact Or.inl found
        · exact Or.inl present
        · exact Or.inr found
    · rw [if_neg present, mem_append, mem_singleton, or_assoc]

theorem mem_pruneMissingPages {cache keep : List String} (ofPath : key ∈ pageCacheKeys path) :
    key ∈ pruneMissingPages cache keep ↔ key ∈ cache ∧ path ∈ keep := by
  simp only [pruneMissingPages, mem_filter, isPageScoped_of_mem ofPath, Bool.true_and,
    Bool.not_not, contains_iff_mem, mem_flatMap]
  refine and_congr_right fun _ => ⟨fun kept => ?_, fun kept => ⟨path, kept, ofPath⟩⟩
  have ⟨other, found, ofOther⟩ := kept
  rw [path_eq_of_mem ofPath ofOther]
  exact found

theorem mem_deletePages {cache paths : List String} (ofPath : key ∈ pageCacheKeys path) :
    key ∈ deletePages cache paths ↔ key ∈ cache ∧ path ∉ paths := by
  simp only [deletePages, mem_filter, Bool.not_eq_true', any_eq_false, contains_iff_mem]
  refine and_congr_right fun _ => ⟨fun kept found => kept path found ofPath, ?_⟩
  intro absent other found ofOther
  rw [path_eq_of_mem ofPath ofOther] at absent
  exact absent found

theorem mem_requests {paths others : List String} (walked : ∀ key ∈ others, key ∈ walkSet)
    (ofPath : key ∈ pageCacheKeys path) :
    key ∈ paths.flatMap pageCacheKeys ++ others ↔ path ∈ paths := by
  rw [mem_append, mem_flatMap]
  constructor
  · rintro (⟨other, found, ofOther⟩ | found)
    · rw [path_eq_of_mem ofPath ofOther]
      exact found
    · exact absurd (walked key found) (not_mem_walkSet ofPath)
  · exact fun found => Or.inl ⟨path, found, ofPath⟩

/-! ### The last event of a path -/

def Follows (cache : List String) (path : String) : Kind → Prop
  | .upserted => ∀ key ∈ pageCacheKeys path, key ∈ cache
  | .removed => ∀ key ∈ pageCacheKeys path, key ∉ cache

def State.Arranged (state : State) (path : String) (kind : Kind) : Prop :=
  match state.pass, kind with
  | none, _ => Follows state.cache path kind
  | some .listing, _ => True
  | some (.full paths remaining), .upserted =>
    path ∈ paths ∧ ∀ key ∈ pageCacheKeys path, key ∈ state.cache ∨ key ∈ remaining
  | some (.full paths _), .removed => path ∉ paths
  | some (.delta removed remaining), .upserted =>
    path ∉ removed ∧ ∀ key ∈ pageCacheKeys path, key ∈ state.cache ∨ key ∈ remaining
  | some (.delta removed remaining), .removed =>
    path ∈ removed ∨ ∀ key ∈ pageCacheKeys path, key ∉ state.cache ∧ key ∉ remaining

def State.Waits (state : State) (path : String) (kind : Kind) : Prop :=
  ∃ window, state.pendingDelta = some window ∧ path ∈ window.paths kind

structure State.Consistent (state : State) : Prop where
  /-- The last event describes the server. -/
  described : ∀ path kind, state.latest path = some kind → (path ∈ state.server ↔ kind = .upserted)
  /-- A path with an event that waits has its last one wait too. -/
  waits : ∀ path kind, state.Waits path kind →
    ∃ last, state.latest path = some last ∧ state.Waits path last
  /-- The last event of a path waits, or is taken care of. -/
  cared : ∀ path kind, state.latest path = some kind →
    state.pendingFull = true ∨ state.Waits path kind ∨ state.Arranged path kind

def Window.Ordered (window : Window) (latest : String → Option Kind) : Prop :=
  ∀ path ∈ window.removed, path ∈ window.upserted → latest path = some .removed

def Orderly (state : State) : Action → Prop
  | .drain online =>
    online = true ∧ (state.pendingFull = true ∨
      ∀ window ∈ state.pendingDelta, window.Ordered state.latest)
  | _ => True

instance (window : Window) (latest : String → Option Kind) : Decidable (window.Ordered latest) :=
  inferInstanceAs (Decidable (∀ path ∈ window.removed, _))

instance (state : State) : (action : Action) → Decidable (Orderly state action)
  | .drain online =>
    inferInstanceAs (Decidable (online = true ∧ (state.pendingFull = true ∨ _)))
  | .changed .. | .requestFull | .list | .fetch _ | .finish => isTrue trivial

section Steps

variable {state next : State} {path : String} {kind : Kind}

theorem not_waits (nothing : state.pendingDelta = none) : ¬ state.Waits path kind := by
  rintro ⟨window, pending, -⟩
  rw [nothing] at pending
  contradiction

variable {upserted removed : List String}

theorem waits_requestDelta : (state.requestDelta upserted removed).Waits path kind ↔
      state.Waits path kind ∨ path ∈ (Window.mk upserted removed).paths kind := by
  cases pending : state.pendingDelta with
  | none | some =>
    cases kind <;> simp [State.requestDelta, State.Waits, pending, Window.paths, mem_insertAll]

theorem latest_of_mem (disjoint : ¬ ∃ path ∈ upserted, path ∈ removed)
    (named : path ∈ (Window.mk upserted removed).paths kind) :
    (state.change upserted removed).latest path = some kind := by
  cases kind with
  | upserted => exact if_pos named
  | removed =>
    have notUpserted : path ∉ upserted := fun found => disjoint ⟨path, found, named⟩
    simp only [State.change, if_neg notUpserted]
    exact if_pos named

theorem latest_of_not_mem (notUpserted : path ∉ upserted) (notRemoved : path ∉ removed) :
    (state.change upserted removed).latest path = state.latest path := by
  simp only [State.change, if_neg notUpserted, if_neg notRemoved]

variable (consistent : state.Consistent)

include consistent

theorem consistent_changed (disjoint : ¬ ∃ path ∈ upserted, path ∈ removed) :
    ((state.change upserted removed).requestDelta upserted removed).Consistent := by
  have unchanged : ∀ path kind, (state.change upserted removed).Waits path kind ↔
      state.Waits path kind := fun _ _ => Iff.rfl
  -- a path is named by the event, and then its last event is this one, or it is not
  have named : ∀ path, (∃ kind, path ∈ (Window.mk upserted removed).paths kind) ∨
      path ∉ upserted ∧ path ∉ removed := by
    intro path
    by_cases isUpserted : path ∈ upserted
    · exact Or.inl ⟨.upserted, isUpserted⟩
    · by_cases isRemoved : path ∈ removed
      · exact Or.inl ⟨.removed, isRemoved⟩
      · exact Or.inr ⟨isUpserted, isRemoved⟩
  refine ⟨fun path kind last => ?_, fun path kind waiting => ?_, fun path kind last => ?_⟩
  · show path ∈ insertAll _ _ ↔ _
    rw [mem_insertAll, mem_filter, decide_eq_true_eq]
    obtain ⟨found, member⟩ | ⟨notUpserted, notRemoved⟩ := named path
    · have same := Option.some.inj ((latest_of_mem disjoint member).symm.trans last)
      subst same
      cases found with
      | upserted => exact ⟨fun _ => rfl, fun _ => Or.inr member⟩
      | removed =>
        refine ⟨fun present => ?_, nofun⟩
        obtain present | present := present
        · exact absurd member present.2
        · exact absurd ⟨path, present, member⟩ disjoint
    · have before := (latest_of_not_mem notUpserted notRemoved).symm.trans last
      rw [← consistent.described path kind before]
      constructor
      · exact fun present => (present.resolve_right notUpserted).1
      · exact fun present => Or.inl ⟨present, notRemoved⟩
  · simp only [waits_requestDelta, unchanged] at waiting ⊢
    obtain ⟨found, member⟩ | ⟨notUpserted, notRemoved⟩ := named path
    · exact ⟨found, latest_of_mem disjoint member, Or.inr member⟩
    · have earlier : state.Waits path kind := by
        refine waiting.resolve_right fun member => ?_
        cases kind with
        | upserted => exact notUpserted member
        | removed => exact notRemoved member
      have ⟨last, isLast, lastWaits⟩ := consistent.waits path kind earlier
      exact ⟨last, (latest_of_not_mem notUpserted notRemoved).trans isLast, Or.inl lastWaits⟩
  · rw [waits_requestDelta, unchanged]
    obtain ⟨found, member⟩ | ⟨notUpserted, notRemoved⟩ := named path
    · rw [Option.some.inj ((latest_of_mem disjoint member).symm.trans last)] at member
      exact Or.inr (Or.inl (Or.inr member))
    · have before := (latest_of_not_mem notUpserted notRemoved).symm.trans last
      obtain full | waiting | arranged := consistent.cared path kind before
      · exact Or.inl full
      · exact Or.inr (Or.inl (Or.inl waiting))
      · exact Or.inr (Or.inr arranged)

theorem consistent_requestFull :
    ({ state with pendingFull := true } : State).Consistent :=
  ⟨consistent.described, consistent.waits, fun _ _ _ => Or.inl rfl⟩

/-- What waits is arranged, and a path that does not wait is not touched. -/
theorem arranged_delta {window : Window} (notFull : state.pendingFull = false)
    (noPass : state.pass = none) (pending : state.pendingDelta = some window)
    (ordered : window.Ordered state.latest) (last : state.latest path = some kind) :
    ({ state with
      pendingDelta := none
      pass := some (.delta window.removed (window.upserted.flatMap pageCacheKeys ++ walkSet)) } :
        State).Arranged path kind := by
  have waits : ∀ kind, state.Waits path kind ↔ path ∈ window.paths kind := by
    intro kind
    simp [State.Waits, pending]
  have requested : ∀ key ∈ pageCacheKeys path,
      (key ∈ window.upserted.flatMap pageCacheKeys ++ walkSet ↔ path ∈ window.upserted) :=
    fun key ofPath => mem_requests (fun _ found => found) ofPath
  by_cases waiting : state.Waits path kind
  · cases kind with
    | upserted =>
      have upserted := (waits .upserted).1 waiting
      refine ⟨fun removed => ?_, fun key ofPath => Or.inr ((requested key ofPath).2 upserted)⟩
      rw [ordered path removed upserted] at last
      contradiction
    | removed => exact Or.inl ((waits .removed).1 waiting)
  · have untouched : ∀ other, path ∉ window.paths other := by
      intro other member
      have ⟨lastKind, isLast, lastWaits⟩ := consistent.waits path other ((waits other).2 member)
      rw [Option.some.inj (isLast.symm.trans last)] at lastWaits
      exact waiting lastWaits
    have follows : Follows state.cache path kind := by
      obtain full | waits | arranged := consistent.cared path kind last
      · rw [notFull] at full
        contradiction
      · exact absurd waits waiting
      · simpa only [State.Arranged, noPass] using arranged
    cases kind with
    | upserted => exact ⟨untouched .removed, fun key ofPath => Or.inl (follows key ofPath)⟩
    | removed =>
      refine Or.inr fun key ofPath => ⟨follows key ofPath, ?_⟩
      rw [requested key ofPath]
      exact untouched .upserted

theorem consistent_drain {online : Bool} (orderly : Orderly state (.drain online))
    (steps : state.drain online = some next) :
    next.Consistent := by
  obtain ⟨rfl, ordered⟩ := orderly
  unfold State.drain at steps
  split at steps
  · contradiction
  · contradiction
  · cases steps
    exact ⟨consistent.described, fun _ _ waiting => absurd waiting (not_waits rfl),
      fun _ _ _ => Or.inr (Or.inr trivial)⟩
  · rename_i window noPass notFull pending
    cases steps
    refine ⟨consistent.described, fun _ _ waiting => absurd waiting (not_waits rfl), ?_⟩
    intro path kind last
    have inOrder := ordered.resolve_left (by rw [notFull]; exact nofun) window pending
    exact Or.inr (Or.inr (arranged_delta consistent notFull noPass pending inOrder last))

theorem consistent_of_arranged {pass : Option Pass} {cache : List String}
    (arranges : ∀ path kind, state.latest path = some kind → state.Arranged path kind →
      ({ state with pass, cache } : State).Arranged path kind) :
    ({ state with pass, cache } : State).Consistent := by
  refine ⟨consistent.described, consistent.waits, fun path kind last => ?_⟩
  obtain full | waits | arranged := consistent.cared path kind last
  · exact Or.inl full
  · exact Or.inr (Or.inl waits)
  · exact Or.inr (Or.inr (arranges path kind last arranged))

theorem consistent_list (steps : state.list = some next) :
    next.Consistent := by
  unfold State.list at steps
  split at steps
  · cases steps
    apply consistent_of_arranged consistent
    intro path kind last _
    have described := consistent.described path kind last
    cases kind with
    | upserted =>
      refine ⟨described.2 rfl, fun key ofPath => Or.inr ?_⟩
      rw [mem_requests (fun _ found => (mem_filter.1 found).1) ofPath]
      exact described.2 rfl
    | removed => exact fun present => nomatch described.1 present
  · contradiction

omit consistent

theorem kept_or_remaining {cache remaining : List String} {key other : String}
    (before : other ∈ cache ∨ other ∈ remaining) :
    other ∈ insertAll cache [key] ∨ other ∈ remaining.erase key := by
  rw [mem_insertAll, mem_singleton]
  by_cases same : other = key
  · exact Or.inl (Or.inr same)
  · obtain kept | requested := before
    · exact Or.inl (Or.inl kept)
    · exact Or.inr ((mem_erase_of_ne same).2 requested)

theorem consistent_fetch {key : String} (consistent : state.Consistent)
    (steps : state.fetch key = some next) : next.Consistent := by
  unfold State.fetch at steps
  split at steps
  · rename_i paths remaining running
    split_ifs at steps
    cases steps
    apply consistent_of_arranged consistent
    intro path kind last arranged
    simp only [State.Arranged, running] at arranged
    cases kind with
    | upserted => exact ⟨arranged.1, fun other ofPath => kept_or_remaining (arranged.2 other ofPath)⟩
    | removed => exact arranged
  · rename_i removed remaining running
    split_ifs at steps with requested
    cases steps
    apply consistent_of_arranged consistent
    intro path kind last arranged
    simp only [State.Arranged, running] at arranged
    cases kind with
    | upserted => exact ⟨arranged.1, fun other ofPath => kept_or_remaining (arranged.2 other ofPath)⟩
    | removed =>
      refine arranged.imp id fun absent other ofPath => ⟨?_, ?_⟩
      · rw [mem_insertAll, mem_singleton]
        rintro (kept | rfl)
        · exact (absent other ofPath).1 kept
        · exact (absent other ofPath).2 requested
      · exact fun found => (absent other ofPath).2 (mem_of_mem_erase found)
  · contradiction

theorem consistent_finish (consistent : state.Consistent) (steps : state.finish = some next) :
    next.Consistent := by
  unfold State.finish at steps
  split at steps
  · rename_i paths running
    cases steps
    apply consistent_of_arranged consistent
    intro path kind last arranged
    simp only [State.Arranged, running] at arranged
    cases kind with
    | upserted =>
      intro key ofPath
      rw [mem_pruneMissingPages ofPath]
      exact ⟨(arranged.2 key ofPath).resolve_right not_mem_nil, arranged.1⟩
    | removed =>
      intro key ofPath
      rw [mem_pruneMissingPages ofPath]
      exact fun kept => arranged kept.2
  · rename_i removed running
    cases steps
    apply consistent_of_arranged consistent
    intro path kind last arranged
    simp only [State.Arranged, running] at arranged
    cases kind with
    | upserted =>
      intro key ofPath
      rw [mem_deletePages ofPath]
      exact ⟨(arranged.2 key ofPath).resolve_right not_mem_nil, arranged.1⟩
    | removed =>
      intro key ofPath
      rw [mem_deletePages ofPath]
      rintro ⟨kept, notRemoved⟩
      exact (arranged.resolve_left notRemoved key ofPath).1 kept
  · contradiction

theorem consistent_step {action : Action} (consistent : state.Consistent)
    (orderly : Orderly state action) (steps : step state action = some next) :
    next.Consistent := by
  cases action with
  | changed upserted removed =>
    simp only [step] at steps
    split_ifs at steps with named
    cases steps
    exact consistent_changed consistent named
  | requestFull =>
    cases steps
    exact consistent_requestFull consistent
  | drain => exact consistent_drain consistent orderly steps
  | list => exact consistent_list consistent steps
  | fetch => exact consistent_fetch consistent steps
  | finish => exact consistent_finish consistent steps

end Steps

/-- When no pass starts offline or meets a path upserted after its removal, the copy follows the
last event of every path. -/
theorem copy_follows_last_event (server cache : List String) (actions : List Action)
    (state : State) (orderly : Throughout step Orderly (State.initial server cache) actions)
    (runs : run step (State.initial server cache) actions = some state) (idle : state.Idle)
    (path : String) (kind : Kind) (last : state.latest path = some kind) :
    Follows state.cache path kind := by
  have initial : (State.initial server cache).Consistent :=
    ⟨nofun, fun _ _ waiting => absurd waiting (not_waits rfl), nofun⟩
  have consistent := invariant_of_throughout
    (fun _ _ _ consistent orderly steps => consistent_step consistent orderly steps) initial
    orderly runs
  have ⟨noPass, notFull, nothing⟩ := idle
  obtain full | waiting | arranged := consistent.cared path kind last
  · rw [notFull] at full
    contradiction
  · exact absurd waiting (not_waits nothing)
  · simpa only [State.Arranged, noPass] using arranged

def deltaPass (upserted : List String) : List Action :=
  .drain true :: (upserted.flatMap pageCacheKeys ++ walkSet).map .fetch ++ [.finish]

/-- A page is written and then removed, in one window. -/
theorem copy_follows_last_event_removed : ∃ state, run step (State.initial [] [])
        (.changed ["a.md"] [] :: .changed [] ["a.md"] :: deltaPass ["a.md"]) = some state ∧
      state.Idle ∧ Follows state.cache "a.md" .removed := by
  refine ⟨_, rfl, ⟨rfl, rfl, rfl⟩, ?_⟩
  refine copy_follows_last_event [] []
    (.changed ["a.md"] [] :: .changed [] ["a.md"] :: deltaPass ["a.md"]) _ ?_ rfl ⟨rfl, rfl, rfl⟩
    "a.md" .removed rfl
  decide

/-- A page is removed and written again in one window: its entries are fetched, and then deleted. -/
theorem copy_lacks_rewritten_page :
    ∃ state, run step (State.initial ["a.md"] (pageCacheKeys "a.md"))
        (.changed [] ["a.md"] :: .changed ["a.md"] [] :: deltaPass ["a.md"]) = some state ∧
      state.Idle ∧ state.latest "a.md" = some .upserted ∧ "a.md" ∈ state.server ∧
      ¬ Follows state.cache "a.md" .upserted := by
  refine ⟨_, rfl, ⟨rfl, rfl, rfl⟩, rfl, ?_, ?_⟩
  · decide
  · unfold Follows
    decide

end Clepsydra.Offline.Sync
