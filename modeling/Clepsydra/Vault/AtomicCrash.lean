import Clepsydra.Vault.AtomicFile

/-!
Owns: crashes of the conditional replacement of a file, after any number of its primitives.

Proves: exactly which of them leave the path with the old or the new bytes.
-/

namespace Clepsydra.Vault.AtomicFile

open Library.Transitions

section Call

variable (bytes : Nat → Bytes) (expected content : Bytes)

def State.Intact (state : State) : Prop := ∃ file, state.directory .destination = some file ∧
    (state.read bytes file = expected ∨ state.read bytes file = content)

def State.Interrupted (state : State) : Prop :=
  ∃ file, state.renames.getLast? = some (.claimed file)

namespace State

variable (state : State)

def Original : Prop := ¬ state.Interrupted ∧
    ∃ inode, state.directory .destination = some (.foreign inode) ∧ bytes inode = expected

def Gone : Prop := state.Interrupted ∧ state.directory .destination = none

def Moved (claim : Nat) : Prop :=
  state.Gone ∧ ∃ inode, state.directory (.claim claim) = some (.foreign inode) ∧
    bytes inode = expected

def Replaced : Prop :=
  ¬ state.Interrupted ∧ state.directory .destination = some .candidate ∧ state.candidate = content

def StageAlone : Stage → Prop
  | .opening | .inspecting _ | .reading _ | .claiming _ | .syncingRestored _ =>
    state.Original bytes expected
  | .inspectingClaim _ claim | .readingClaim claim | .creating claim | .cleaning claim _ false =>
    state.Moved bytes expected claim
  | .permitting claim temporary | .writing claim temporary =>
    state.Moved bytes expected claim ∧ state.directory (.temporary temporary) = some .candidate
  | .publishing claim temporary =>
    state.Moved bytes expected claim ∧
      state.directory (.temporary temporary) = some .candidate ∧ state.candidate = content
  | .cleaning _ _ true | .droppingClaim _ => False
  | .restoring claim _ => state.Moved bytes expected claim ∨ state.Replaced content
  | .syncing _ | .removingClaim _ | .syncingRemoval => state.Replaced content
  | .returned _ => state.Original bytes expected ∨ state.Gone ∨ state.Replaced content

def Alone : Prop := state.StageAlone bytes expected content state.stage

end State

section Crashes

variable {bytes expected content} {state next : State} {succeeds : Bool}

theorem alone_goto {stage : Stage} (alone : state.StageAlone bytes expected content stage) :
    (state.goto stage).Alone bytes expected content := by
  show (state.goto stage).StageAlone bytes expected content stage
  cases stage with
  | cleaning _ _ occupied => cases occupied <;> exact alone
  | _ => exact alone

theorem moved_claim {observed : File} (original : state.Original bytes expected)
    (claiming : state.stage = .claiming observed) :
    (state.claim observed).Alone bytes expected content := by
  have ⟨inode, found, holds⟩ := original.2
  simp only [State.claim, found]
  split
  · show State.StageAlone _ _ _ _ state.stage
    rw [claiming]
    exact original
  · refine ⟨⟨⟨.foreign inode, ?_⟩, ?_⟩, inode, ?_, holds⟩
    · simp
    · simp [Directory.rename]
    · simp [found]

theorem alone_create {claim : Nat} (moved : state.Moved bytes expected claim)
    (creating : state.stage = .creating claim) :
    (state.create claim).Alone bytes expected content := by
  unfold State.create
  split
  · show State.StageAlone _ _ _ _ state.stage
    rw [creating]
    exact moved
  · have ⟨⟨interrupted, absent⟩, inode, found, holds⟩ := moved
    refine ⟨⟨⟨interrupted, ?_⟩, inode, ?_, holds⟩, ?_⟩
    · simp [absent]
    · simp [found]
    · simp

variable (alone : state.Alone bytes expected content)
  (steps : state.call bytes expected content succeeds = some next)

include alone steps

theorem alone_publishing {claim temporary : Nat}
    (publishing : state.stage = .publishing claim temporary) :
    next.Alone bytes expected content := by
  rw [State.Alone, publishing] at alone
  have ⟨moved, created, written⟩ := alone
  simp only [State.call, publishing, moved.1.2] at steps
  cases succeeds with
  | false =>
    cases steps
    exact alone_goto moved
  | true =>
    cases steps
    refine ⟨?_, ?_, written⟩
    · simp [State.Interrupted]
    · simp [created]

theorem alone_cleaning {claim temporary : Nat} {occupied : Bool}
    (cleaning : state.stage = .cleaning claim temporary occupied) :
    next.Alone bytes expected content := by
  rw [State.Alone, cleaning] at alone
  cases occupied with
  | true => exact alone.elim
  | false =>
    have ⟨⟨interrupted, absent⟩, inode, found, holds⟩ := alone
    simp only [State.call, cleaning, Option.some.injEq] at steps
    rw [← steps]
    cases succeeds with
    | true =>
      refine Or.inl ⟨⟨interrupted, ?_⟩, inode, ?_, holds⟩
      · simp [State.goto, absent]
      · simp [State.goto, found]
    | false => exact Or.inl ⟨⟨interrupted, absent⟩, inode, found, holds⟩

theorem alone_restoring {claim : Nat} {failure : Option Result}
    (restoring : state.stage = .restoring claim failure) :
    next.Alone bytes expected content := by
  rw [State.Alone, restoring] at alone
  simp only [State.call, restoring] at steps
  obtain ⟨⟨interrupted, absent⟩, inode, found, holds⟩ | replaced := alone
  · rw [absent] at steps
    cases succeeds with
    | true =>
      cases steps
      refine ⟨?_, inode, ?_, holds⟩
      · simp [State.Interrupted]
      · simp [found]
    | false =>
      cases steps
      exact alone_goto (Or.inr (Or.inl ⟨interrupted, absent⟩))
  · rw [replaced.2.1] at steps
    cases steps
    exact alone_goto (Or.inr (Or.inr replaced))

theorem alone_of_call : next.Alone bytes expected content := by
  have holds := alone
  cases atStage : state.stage
  case publishing => exact alone_publishing alone steps atStage
  case cleaning => exact alone_cleaning alone steps atStage
  case restoring => exact alone_restoring alone steps atStage
  all_goals
    rw [State.Alone, atStage] at holds
    simp only [State.call, atStage, Option.some.injEq, reduceCtorEq] at steps
  case opening =>
    obtain ⟨inode, found, _⟩ := holds.2
    rw [found] at steps
    cases succeeds with
    | true =>
      cases steps
      exact alone_goto holds
    | false =>
      cases steps
      exact alone_goto (Or.inl holds)
  case droppingClaim => exact holds.elim
  all_goals rw [← steps]
  case inspecting | reading =>
    split_ifs
    all_goals first | exact alone_goto holds | exact alone_goto (Or.inl holds)
  case claiming =>
    split
    · exact moved_claim holds atStage
    · exact alone_goto (Or.inl holds)
  case inspectingClaim | readingClaim =>
    split_ifs
    · exact alone_goto (Or.inl holds)
    · exact alone_goto (Or.inl holds)
    · exact alone_goto holds
  case creating =>
    split
    · exact alone_create holds atStage
    · exact alone_goto (Or.inl holds)
  case permitting =>
    split
    · exact alone_goto holds
    · exact alone_goto holds.1
  case writing =>
    split
    · exact ⟨holds.1, holds.2, rfl⟩
    · exact alone_goto holds.1
  case syncingRestored =>
    split
    · exact alone_goto (Or.inl holds)
    · exact alone_goto (Or.inl holds)
  case syncing =>
    split
    · exact alone_goto holds
    · exact alone_goto (Or.inr holds)
  case removingClaim =>
    split
    · refine ⟨holds.1, ?_, holds.2.2⟩
      simp [holds.2.1]
    · exact alone_goto (Or.inr (Or.inr holds))
  case syncingRemoval =>
    split
    · exact alone_goto (Or.inr (Or.inr holds))
    · exact alone_goto (Or.inr (Or.inr holds))

omit steps in
theorem settled_of_alone :
    state.Original bytes expected ∨ state.Gone ∨ state.Replaced content := by
  unfold State.Alone at alone
  cases atStage : state.stage <;> rw [atStage] at alone
  case opening | inspecting | reading | claiming | syncingRestored => exact Or.inl alone
  case inspectingClaim | readingClaim | creating => exact Or.inr (Or.inl alone.1)
  case permitting | writing | publishing => exact Or.inr (Or.inl alone.1.1)
  case cleaning _ _ occupied =>
    cases occupied with
    | true => exact alone.elim
    | false => exact Or.inr (Or.inl alone.1)
  case droppingClaim => exact alone.elim
  case restoring =>
    obtain moved | replaced := alone
    · exact Or.inr (Or.inl moved.1)
    · exact Or.inr (Or.inr replaced)
  case syncing | removingClaim | syncingRemoval => exact Or.inr (Or.inr alone)
  case returned => exact alone

end Crashes

/-- With no other writer, a crash leaves the old or the new bytes exactly when it does not fall
between the claim and the publication or the return of a file. -/
theorem crash_leaves_old_or_new (entries : Name → Option Nat) (inode : Nat)
    (atPath : entries .destination = some inode) (holds : bytes inode = expected)
    (outcomes : List Bool) (state : State)
    (runs : run (State.call bytes expected content) (State.initial entries) outcomes = some state) :
    state.Intact bytes expected content ↔ ¬ state.Interrupted := by
  have initial : (State.initial entries).Alone bytes expected content := by
    refine ⟨?_, inode, ?_, holds⟩
    · simp [State.Interrupted, State.initial]
    · simp [State.initial, atPath]
  have alone := invariant_of_run
    (fun current succeeds next alone steps => alone_of_call alone steps) initial runs
  obtain original | gone | replaced := settled_of_alone alone
  · obtain ⟨file, found, same⟩ := original.2
    exact ⟨fun _ => original.1, fun _ => ⟨_, found, Or.inl same⟩⟩
  · refine ⟨fun intact => ?_, fun safe => absurd gone.1 safe⟩
    obtain ⟨file, found, -⟩ := intact
    rw [gone.2] at found
    contradiction
  · exact ⟨fun _ => replaced.1, fun _ => ⟨_, replaced.2.1, Or.inr replaced.2.2⟩⟩

end Call

/-- A crash right after the publication. -/
theorem crash_leaves_old_or_new_published : ∃ state, run (State.call (fun _ => [1]) [1] [2])
        (State.initial stagedEntries) (List.replicate 10 true) = some state ∧
      (state.Intact (fun _ => [1]) [1] [2] ↔ ¬ state.Interrupted) :=
  ⟨_, rfl, crash_leaves_old_or_new (fun _ => [1]) [1] [2] stagedEntries 0 rfl rfl
    (List.replicate 10 true) _ rfl⟩

/-- A crash right after the path was claimed: there is no file at it. -/
theorem path_gone_after_claim : ∃ state, run (State.call (fun _ => [1]) [1] [2])
        (State.initial stagedEntries) (List.replicate 4 true) = some state ∧
      state.directory .destination = none ∧ ¬ state.Intact (fun _ => [1]) [1] [2] := by
  refine ⟨_, rfl, rfl, fun intact => ?_⟩
  obtain ⟨file, found, -⟩ := intact
  contradiction

end Clepsydra.Vault.AtomicFile
