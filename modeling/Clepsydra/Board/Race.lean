import Clepsydra.Board.TaskPatch
import Clepsydra.Library.Transitions

/-!
Owns: concurrent patches of tasks. Each reads its page, loads the board, plans and writes.

Proves: while no write closes a way that its board did not have, no task ever waits for itself.
-/

namespace Clepsydra.Board

open Library Library.Search Library.Transitions Vault List Option

/-! ### The machine -/

/-- How far one attempt of `patch_task_at` is. -/
inductive PatchPhase where
  | requested
  | read (page : TaskPage)
  | loaded (page : TaskPage) (lookups : BoardLookups)
  | planned (lookups : BoardLookups) (command : UpdatePageCommand)
  | finished

structure PatchRequest where
  code : String
  patch : TaskPatch
  phase : PatchPhase

structure BoardState where
  disk : Tasks
  index : Tasks
  requests : Nat → Option PatchRequest

inductive PatchAction where
  | submit (id : Nat) (code : String) (patch : TaskPatch)
  | read (id : Nat)
  | load (id : Nat) (cycleStems projectSlugs : List String)
  | plan (id now : Nat)
  | write (id : Nat)
  | reindex (code : String)
  | restart (id : Nat)

def Tasks.store (tasks : Tasks) (code : String) (page : TaskPage) : Tasks :=
  tasks.modify code (fun row => { page with code := row.code }) fun _ => rfl

def BoardState.advance (state : BoardState) (id : Nat) (request : PatchRequest)
    (phase : PatchPhase) : BoardState :=
  { state with requests := Function.update state.requests id (some { request with phase }) }

/-- `update_page`, as far as it decides whether the planned page is stored. -/
def BoardState.write (state : BoardState) (id : Nat) (request : PatchRequest)
    (command : UpdatePageCommand) : BoardState :=
  if state.disk.get request.code = some command.expected then
    { state.advance id request .finished with disk := state.disk.store request.code command.page }
  else state.advance id request .finished

def patchStep (characters : Characters) (state : BoardState) : PatchAction → Option BoardState
  | .submit id code patch =>
    match state.requests id with
    | some _ => none
    | none =>
      some { state with
          requests := Function.update state.requests id (some ⟨code, patch, .requested⟩) }
  | .read id =>
    match state.requests id with
    | some ⟨code, patch, .requested⟩ =>
      match state.disk.get code with
      | none => some (state.advance id ⟨code, patch, .requested⟩ .finished)
      | some page => some (state.advance id ⟨code, patch, .requested⟩ (.read page))
    | _ => none
  | .load id cycleStems projectSlugs =>
    match state.requests id with
    | some ⟨code, patch, .read page⟩ =>
      let lookups := ⟨cycleStems, projectSlugs, taskNodesFrom characters.toUnicode state.index⟩
      some (state.advance id ⟨code, patch, .read page⟩ (.loaded page lookups))
    | _ => none
  | .plan id now =>
    match state.requests id with
    | some ⟨code, patch, .loaded page lookups⟩ =>
      match planTaskPatch characters page patch lookups now with
      | .error _ => some (state.advance id ⟨code, patch, .loaded page lookups⟩ .finished)
      | .ok command =>
        some (state.advance id ⟨code, patch, .loaded page lookups⟩ (.planned lookups command))
    | _ => none
  | .write id =>
    match state.requests id with
    | some ⟨code, patch, .planned lookups command⟩ =>
      some (state.write id ⟨code, patch, .planned lookups command⟩ command)
    | _ => none
  | .reindex code =>
    match state.disk.get code with
    | none => none
    | some page => some { state with index := state.index.store code page }
  | .restart id =>
    -- `mutate_stable_by_id` tries again when the page moved away under the attempt
    (state.requests id).map fun request => state.advance id request .requested

def BoardState.nodes (characters : Characters) (state : BoardState) : TaskNodes :=
  taskNodesFrom characters.toUnicode state.disk

def BoardState.start (tasks : Tasks) : BoardState := ⟨tasks, tasks, fun _ => none⟩

/-! ### Writes on a board that is out of date -/

/-- A blocker that a write adds is stored under its own code, and every way from it back to the
patched task was on the board. -/
def Foreseen (nodes loaded : TaskNodes) (code : String) (page : TaskPage) (blocker : String) : Prop :=
  wikilink blocker ∈ storedBlockers page.extra
    ∧ ∀ task next, task ≠ code → Relation.ReflTransGen nodes.Blocked blocker task →
        nodes.Blocked task next → Relation.ReflTransGen nodes.Blocked next code →
        loaded.Blocked task next

def Unraced (characters : Characters) (state : BoardState) : PatchAction → Prop
  | .write id =>
    ∀ code patch lookups command, state.requests id = some ⟨code, patch, .planned lookups command⟩ →
      state.disk.get code = some command.expected →
      ∀ blocker ∈ (taskNode characters.toUnicode state.disk.codes command.page).blockedBy,
        (state.nodes characters).Blocked code blocker
          ∨ Foreseen (state.nodes characters) lookups.tasks code command.page blocker
  | _ => True

theorem wikilink_injective {left right : String} (same : wikilink left = wikilink right) :
    left = right := by
  have lists := congrArg String.toList same
  simp only [wikilink, String.toList_append] at lists
  exact String.ext (append_cancel_left (append_cancel_right lists))

/-! ### The board of a table -/

@[simp] theorem Tasks.codes_store (tasks : Tasks) (code : String) (page : TaskPage) :
    (tasks.store code page).codes = tasks.codes := by
  unfold Tasks.codes Tasks.store Table.modify
  rw [List.map_map]
  apply map_congr_left
  intro row _
  by_cases here : row.code = code
  · simp [here]
  · simp [here]

theorem blockers_taskNodesFrom (unicode : Unicode) (tasks : Tasks) (code : String) :
    (taskNodesFrom unicode tasks).blockers code = match tasks.get code with
        | none => []
        | some page => (taskNode unicode tasks.codes page).blockedBy := by
  unfold TaskNodes.blockers
  cases found : tasks.get code with
  | none =>
    have absent : (taskNodesFrom unicode tasks).get code = none := by
      rw [Table.get_eq_none_iff] at found ⊢
      intro member
      have ⟨node, inRows, isCode⟩ := List.mem_map.1 member
      have ⟨page, inTasks, isNode⟩ := List.mem_map.1 ((mem_insertionSort _).1 inRows)
      rw [← isNode] at isCode
      exact found (List.mem_map.2 ⟨page, inTasks, isCode⟩)
    rw [absent]
  | some page =>
    have inRows : taskNode unicode tasks.codes page ∈ (taskNodesFrom unicode tasks).rows :=
      (mem_insertionSort _).2 (List.mem_map_of_mem (Table.mem_of_get found))
    have present := Table.get_of_mem inRows
    have isCode : page.code = code := Table.key_of_get found
    rw [show (taskNode unicode tasks.codes page).code = code from isCode] at present
    rw [present]

theorem blockers_store (unicode : Unicode) (tasks : Tasks) {code : String} {old page : TaskPage}
    (present : tasks.get code = some old) (sameCode : page.code = code) (task : String) :
    (taskNodesFrom unicode (tasks.store code page)).blockers task
      = if task = code then (taskNode unicode tasks.codes page).blockedBy
        else (taskNodesFrom unicode tasks).blockers task := by
  rw [blockers_taskNodesFrom, blockers_taskNodesFrom, Tasks.codes_store]
  unfold Tasks.store
  rw [Table.get_modify]
  by_cases here : task = code
  · have kept : ({ page with code := old.code } : TaskPage) = page := by
      rw [show old.code = page.code from (Table.key_of_get present).trans sameCode.symm]
    rw [if_pos here, if_pos here, here, present, map_some]
    simp only [kept]
  · rw [if_neg here, if_neg here]

/-! ### The invariant -/

def PatchRequest.Honest (characters : Characters) (request : PatchRequest) : Prop :=
  match request.phase with
  | .read page => page.code = request.code
  | .loaded page _ => page.code = request.code
  | .planned lookups command =>
    ∃ page now, page.code = request.code
      ∧ planTaskPatch characters page request.patch lookups now = .ok command
  | _ => True

def BoardState.Sound (characters : Characters) (state : BoardState) : Prop :=
  (state.nodes characters).Acyclic
    ∧ ∀ id request, state.requests id = some request → request.Honest characters

section Steps

variable {characters : Characters} {state next : BoardState}

theorem sound_advance {id : Nat} {request : PatchRequest} {phase : PatchPhase}
    (sound : state.Sound characters)
    (honest : PatchRequest.Honest characters { request with phase }) :
    (state.advance id request phase).Sound characters := by
  refine ⟨sound.1, fun other its found => ?_⟩
  simp only [BoardState.advance] at found
  by_cases same : other = id
  · rw [same, Function.update_self] at found
    rw [← some.inj found]
    exact honest
  · rw [Function.update_of_ne same] at found
    exact sound.2 other its found

theorem reaches_of_foreseen {nodes loaded : TaskNodes} {code blocker : String} {page : TaskPage}
    (foreseen : Foreseen nodes loaded code page blocker)
    (back : Relation.ReflTransGen nodes.Blocked blocker code) :
    Relation.ReflTransGen loaded.Blocked blocker code := by
  have onBoard : ∀ task, Relation.ReflTransGen nodes.Blocked task code →
      Relation.ReflTransGen nodes.Blocked blocker task →
      Relation.ReflTransGen loaded.Blocked task code := by
    intro task leads
    induction leads using Relation.ReflTransGen.head_induction_on with
    | refl => exact fun _ => .refl
    | @head current next edge rest ih =>
      intro reached
      by_cases isCode : current = code
      · rw [isCode]
      · have edgeOnBoard := foreseen.2 current next isCode reached edge rest
        exact .head edgeOnBoard (ih (.tail reached edge))
  exact onBoard blocker back .refl

theorem acyclic_write {id : Nat} {code : String} {patch : TaskPatch} {lookups : BoardLookups}
    {command : UpdatePageCommand} (sound : state.Sound characters)
    (found : state.requests id = some ⟨code, patch, .planned lookups command⟩)
    (fresh : state.disk.get code = some command.expected)
    (unraced : Unraced characters state (.write id)) :
    (taskNodesFrom characters.toUnicode (state.disk.store code command.page)).Acyclic := by
  have ⟨page, now, ofPage, planned⟩ := sound.2 id _ found
  have ⟨isExpected, sameCode, blockers⟩ := blockers_of_plan planned
  have pageCode : command.page.code = code := sameCode.trans ofPage
  have stored := blockers_store characters.toUnicode state.disk fresh pageCode
  have others : ∀ task blocker, task ≠ code →
      (taskNodesFrom characters.toUnicode (state.disk.store code command.page)).Blocked task blocker →
      (state.nodes characters).Blocked task blocker := by
    intro task blocker other blocked
    unfold TaskNodes.Blocked at blocked ⊢
    rw [stored, if_neg other] at blocked
    exact blocked
  refine acyclic_of_newEdges sound.1 others fun blocker blocked => ?_
  unfold TaskNodes.Blocked at blocked
  rw [stored, if_pos rfl] at blocked
  rcases blockers with kept | ⟨resolved, links, leadAway⟩
  · left
    unfold TaskNodes.Blocked BoardState.nodes
    rw [blockers_taskNodesFrom, fresh, isExpected]
    unfold taskNode at blocked ⊢
    rw [kept] at blocked
    exact blocked
  · rcases unraced code patch lookups command found fresh blocker blocked with old | foreseen
    · exact .inl old
    · right
      have own := foreseen.1
      rw [links] at own
      have ⟨code', inResolved, sameLink⟩ := List.mem_map.1 own
      have isBlocker : code' = blocker := wikilink_injective sameLink
      rw [isBlocker] at inResolved
      rw [ofPage] at leadAway
      exact fun back => leadAway blocker inResolved (reaches_of_foreseen foreseen back)

theorem sound_write {id : Nat} {code : String} {patch : TaskPatch} {lookups : BoardLookups}
    {command : UpdatePageCommand} (sound : state.Sound characters)
    (found : state.requests id = some ⟨code, patch, .planned lookups command⟩)
    (unraced : Unraced characters state (.write id)) :
    (state.write id ⟨code, patch, .planned lookups command⟩ command).Sound characters := by
  have finished : (state.advance id ⟨code, patch, .planned lookups command⟩ .finished).Sound
      characters := sound_advance sound trivial
  unfold BoardState.write
  by_cases fresh : state.disk.get code = some command.expected
  · rw [if_pos fresh]
    exact ⟨acyclic_write sound found fresh unraced, finished.2⟩
  · rw [if_neg fresh]
    exact finished

theorem sound_step {action : PatchAction} (sound : state.Sound characters)
    (unraced : Unraced characters state action)
    (steps : patchStep characters state action = some next) : next.Sound characters := by
  cases action with
  | submit id code patch =>
    simp only [patchStep] at steps
    split at steps
    · cases steps
    · rw [← some.inj steps]
      have asked : (state.advance id ⟨code, patch, .requested⟩ .requested).Sound characters :=
        sound_advance sound trivial
      exact asked
  | read id =>
    simp only [patchStep] at steps
    split at steps
    · split at steps
      · rw [← some.inj steps]
        exact sound_advance sound trivial
      · rename_i page found
        rw [← some.inj steps]
        exact sound_advance sound (Table.key_of_get found)
    · cases steps
  | load id cycleStems projectSlugs =>
    simp only [patchStep] at steps
    split at steps
    · rename_i found
      rw [← some.inj steps]
      have ofPage := sound.2 id _ found
      exact sound_advance sound ofPage
    · cases steps
  | plan id now =>
    simp only [patchStep] at steps
    split at steps
    · rename_i found
      have ofPage := sound.2 id _ found
      split at steps
      · rw [← some.inj steps]
        exact sound_advance sound trivial
      · rename_i planned
        rw [← some.inj steps]
        exact sound_advance sound ⟨_, now, ofPage, planned⟩
    · cases steps
  | write id =>
    simp only [patchStep] at steps
    split at steps
    · rename_i found
      rw [← some.inj steps]
      exact sound_write sound found unraced
    · cases steps
  | reindex code =>
    simp only [patchStep] at steps
    split at steps
    · cases steps
    · rw [← some.inj steps]
      exact sound
  | restart id =>
    have ⟨request, _, isNext⟩ := map_eq_some_iff.1 steps
    rw [← isNext]
    exact sound_advance sound trivial

end Steps

/-- While every added blocker is foreseen, no task ever waits for itself. -/
theorem blockers_stay_acyclic {characters : Characters} {tasks : Tasks}
    {actions : List PatchAction} {final : BoardState}
    (acyclic : (taskNodesFrom characters.toUnicode tasks).Acyclic)
    (unraced : Throughout (patchStep characters) (Unraced characters) (BoardState.start tasks) actions)
    (runs : run (patchStep characters) (BoardState.start tasks) actions = some final) :
    (final.nodes characters).Acyclic := by
  have startSound : (BoardState.start tasks).Sound characters :=
    ⟨acyclic, fun _ _ found => nomatch found⟩
  have keeps : ∀ state action next, state.Sound characters → Unraced characters state action →
      patchStep characters state action = some next → next.Sound characters :=
    fun _ _ _ sound unraced steps => sound_step sound unraced steps
  exact (invariant_of_throughout keeps startSound unraced runs).1

/-! ### Two patches -/

def asciiCharacters : Characters where
  nfc := id
  toLowercase := asciiLowercase
  toUppercase text := String.ofList (text.toList.map Char.toUpper)
  isAlphanumeric := Char.isAlphanum

def openTask (code : String) : TaskPage := ⟨code, none, [], none, [], 0, ""⟩

def twoTasks : Tasks := ⟨[openTask "T-1", openTask "T-2"], by decide⟩

def blockOn (code : String) : TaskPatch := { TaskPatch.unchanged with blockedBy := some [code] }

def crossing : List PatchAction :=
  [.submit 0 "T-1" (blockOn "T-2"), .submit 1 "T-2" (blockOn "T-1"),
    .read 0, .load 0 [] [], .plan 0 1, .read 1, .load 1 [] [], .plan 1 1, .write 0, .write 1]

def blockersAfter (actions : List PatchAction) : Option (List String × List String) :=
  (run (patchStep asciiCharacters) (BoardState.start twoTasks) actions).map fun state =>
    ((state.nodes asciiCharacters).blockers "T-1", (state.nodes asciiCharacters).blockers "T-2")

theorem twoTasks_not_blocked (task next : String) :
    ¬(taskNodesFrom asciiCharacters.toUnicode twoTasks).Blocked task next := by
  unfold TaskNodes.Blocked
  rw [blockers_taskNodesFrom]
  cases found : twoTasks.get task with
  | none => exact not_mem_nil
  | some page =>
    have isOpen : page = openTask "T-1" ∨ page = openTask "T-2" := by
      simpa [twoTasks] using Table.mem_of_get found
    rcases isOpen with isFirst | isSecond
    · rw [isFirst]
      exact not_mem_nil
    · rw [isSecond]
      exact not_mem_nil

theorem twoTasks_acyclic : (taskNodesFrom asciiCharacters.toUnicode twoTasks).Acyclic := by
  intro code cycle
  have ⟨next, edge, _⟩ := Relation.TransGen.head'_iff.1 cycle
  exact twoTasks_not_blocked code next edge

def alone : List PatchAction := [.submit 0 "T-1" (blockOn "T-2"), .read 0, .load 0 [] [], .plan 0 1]

def aboutToStore (state : BoardState) : List TaskPage × Option (List String × List String) :=
  (state.disk.rows,
    match state.requests 0 with
    | some ⟨_, _, .planned _ command⟩ =>
      some ((taskNode asciiCharacters.toUnicode state.disk.codes command.page).blockedBy,
        storedBlockers command.page.extra)
    | _ => none)

theorem alone_unraced :
    Throughout (patchStep asciiCharacters) (Unraced asciiCharacters) (BoardState.start twoTasks)
      (alone ++ [.write 0]) := by
  apply throughout_append
  · simp [alone, Throughout, Unraced]
  · intro state runs
    have before : (run (patchStep asciiCharacters) (BoardState.start twoTasks) alone).map aboutToStore
        = some (twoTasks.rows, some (["T-2"], ["[[T-2]]"])) := by decide
    rw [runs] at before
    have ⟨sameRows, stores⟩ := Prod.mk.inj (some.inj before)
    have sameDisk : state.disk = twoTasks := by
      cases disk : state.disk
      simpa [disk, twoTasks] using sameRows
    refine ⟨?_, fun _ _ => trivial⟩
    intro code patch lookups command found fresh blocker member
    rw [found] at stores
    have ⟨blockers, links⟩ := Prod.mk.inj (some.inj stores)
    rw [blockers] at member
    refine .inr ⟨?_, fun task next _ _ edge _ => ?_⟩
    · rw [links, mem_singleton.1 member]
      decide
    · unfold BoardState.nodes at edge
      rw [sameDisk] at edge
      exact absurd edge (twoTasks_not_blocked task next)

theorem blockers_stay_acyclic_alone :
    ∃ final, run (patchStep asciiCharacters) (BoardState.start twoTasks) (alone ++ [.write 0])
        = some final
      ∧ (final.nodes asciiCharacters).blockers "T-1" = ["T-2"]
      ∧ (final.nodes asciiCharacters).Acyclic := by
  have after : blockersAfter (alone ++ [.write 0]) = some (["T-2"], []) := by decide
  have ⟨final, runs, blockers⟩ := map_eq_some_iff.1 after
  exact ⟨final, runs, (Prod.mk.inj blockers).1,
    blockers_stay_acyclic twoTasks_acyclic alone_unraced runs⟩

/-- Two patches that cross leave each of two tasks waiting for the other. -/
theorem crossing_patches_close_cycle :
    ¬∀ (characters : Characters) (tasks : Tasks) (actions : List PatchAction) (final : BoardState),
      (taskNodesFrom characters.toUnicode tasks).Acyclic →
      run (patchStep characters) (BoardState.start tasks) actions = some final →
      (final.nodes characters).Acyclic := by
  intro always
  have after : blockersAfter crossing = some (["T-2"], ["T-1"]) := by decide
  have ⟨final, runs, blockers⟩ := map_eq_some_iff.1 after
  have ⟨first, second⟩ := Prod.mk.inj blockers
  have waits : (final.nodes asciiCharacters).Blocked "T-1" "T-2" := by
    unfold TaskNodes.Blocked
    rw [first]
    exact mem_singleton_self _
  have back : (final.nodes asciiCharacters).Blocked "T-2" "T-1" := by
    unfold TaskNodes.Blocked
    rw [second]
    exact mem_singleton_self _
  exact always asciiCharacters twoTasks crossing final twoTasks_acyclic runs "T-1"
    (.tail (.single waits) back)

end Clepsydra.Board
