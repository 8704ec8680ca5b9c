import Clepsydra.Capture.Relay

/-!
Proves: over any exchange on the relay port the content side resolves with nothing but the response
the worker fetched and settles once, and no exchange waits for ever.
-/

namespace Clepsydra.Capture.Relay

open Library Library.Transitions List Option

/-! ### The transcript of a response -/

def chunkMessage (response : Response) (index : Nat) : PortMessage :=
  .chunk (encodeBase64 (piece relayChunkBytes response.body index))

def transcript (toLowerCase : String → String) (response : Response) (count : Nat) :
    List PortMessage :=
  .metadata (Worker.metadataOf toLowerCase response)
    :: (List.range count).map (chunkMessage response)

def reached (response : Response) (count : Nat) : Nat :=
  min (count * relayChunkBytes) response.body.length

def chunkCount (response : Response) : Nat := pieceCount relayChunkBytes response.body

theorem relayChunkBytes_pos : 0 < relayChunkBytes := by decide

theorem transcript_succ (toLowerCase : String → String) (response : Response) (count : Nat) :
    transcript toLowerCase response (count + 1)
      = transcript toLowerCase response count ++ [chunkMessage response count] := by
  rw [transcript, range_succ, map_append]
  rfl

theorem length_transcript (toLowerCase : String → String) (response : Response) (count : Nat) :
    (transcript toLowerCase response count).length = count + 1 := by
  simp [transcript]

theorem take_transcript (toLowerCase : String → String) (response : Response) {count more : Nat}
    (fewer : count ≤ more) :
    (transcript toLowerCase response more).take (count + 1)
      = transcript toLowerCase response count := by
  simp [transcript, ← map_take, take_range, Nat.min_eq_left fewer]

theorem lt_chunkCount {response : Response} {count : Nat} :
    count < chunkCount response ↔ count * relayChunkBytes < response.body.length := by
  rw [chunkCount, pieceCount, Nat.lt_div_iff_mul_lt relayChunkBytes_pos]
  have positive := relayChunkBytes_pos
  omega

theorem decodeBase64_encodeBase64 (bytes : Bytes) :
    decodeBase64 (encodeBase64 bytes) = some bytes := by
  rw [decodeBase64, encodeBase64, flatten_all_pieces (by decide), Base64.atob_btoa]

theorem isRelayChunk_encodeBase64 {bytes : Bytes} (some : bytes ≠ [])
    (small : bytes.length ≤ relayChunkBytes) : isRelayChunk (encodeBase64 bytes) = true := by
  have positive := length_pos_iff.2 some
  have bounded : (bytes.length + 2) / 3 ≤ (relayChunkBytes + 2) / 3 :=
    Nat.div_le_div_right (Nat.add_le_add_right small 2)
  rw [isRelayChunk, encodeBase64, flatten_all_pieces (by decide), Base64.length_btoa]
  rw [Bool.and_eq_true, decide_eq_true_eq, decide_eq_true_eq]
  exact ⟨by omega, Nat.mul_le_mul_left 4 bounded⟩

def PortMessage.isChunk : PortMessage → Bool
  | .chunk _ => true
  | _ => false

/-! ### What the worker posts -/

section WorkerSide

variable (toLowerCase : String → String)

def Data (response : Option Response) (posted : List PortMessage) : Prop :=
  posted = [] ∨ ∃ served count, response = some served
    ∧ isRelayMetadata (Worker.metadataOf toLowerCase served) = true
    ∧ count ≤ chunkCount served ∧ posted = transcript toLowerCase served count

def Posted (response : Option Response) (posted : List PortMessage) : Prop :=
  ∃ data, Data toLowerCase response data
    ∧ (posted = data ∨ ∃ error, posted = data ++ [.abort error])

def Current (worker : Worker) : Prop :=
  (worker.bytes = none ∧ worker.offset = 0 ∧ worker.outgoing.sent = []) ∨ ∃ served count,
    worker.response = some served
    ∧ isRelayMetadata (Worker.metadataOf toLowerCase served) = true
    ∧ count ≤ chunkCount served ∧ worker.bytes = some served.body
    ∧ worker.offset = reached served count
    ∧ worker.outgoing.sent = transcript toLowerCase served count

structure WorkerKept (worker : Worker) : Prop where
  requested : worker.fetching = true → worker.requestReceived = true
  waiting : worker.fetching = true → worker.response = none
  unrequested : worker.requestReceived = false → worker.response = none
  posted : Posted toLowerCase worker.response worker.outgoing.sent
  current : worker.active = true → Current toLowerCase worker

structure Answers (chunks : Bool) (before : Channel) (response : Option Response)
    (next : Worker) : Prop where
  delivered : next.outgoing.delivered = before.delivered
  response : ∀ served, response = some served → next.response = some served
  sent : next.outgoing.sent = before.sent ∨ ∃ message,
    next.outgoing.sent = before.sent ++ [message] ∧ (message.isChunk = true → chunks = true)

variable {toLowerCase} {worker : Worker} {chunks : Bool}

theorem Answers.refl : Answers chunks worker.outgoing worker.response worker :=
  ⟨rfl, fun _ same => same, .inl rfl⟩

theorem Data.posted {response : Option Response} {posted : List PortMessage}
    (data : Data toLowerCase response posted) : Posted toLowerCase response posted :=
  ⟨posted, data, .inl rfl⟩

theorem Current.data (current : Current toLowerCase worker) :
    Data toLowerCase worker.response worker.outgoing.sent := by
  rcases current with ⟨_, _, nothing⟩ | ⟨served, count, isServed, valid, within, _, _, said⟩
  · exact .inl nothing
  · exact .inr ⟨served, count, isServed, valid, within, said⟩

theorem Data.eq_nil {posted : List PortMessage} (data : Data toLowerCase none posted) :
    posted = [] := by
  rcases data with nothing | ⟨_, _, isServed, _⟩
  · exact nothing
  · exact nomatch isServed

theorem Posted.of_none {posted : List PortMessage} (said : Posted toLowerCase none posted)
    (response : Option Response) : Posted toLowerCase response posted := by
  have ⟨data, isData, isPosted⟩ := said
  exact ⟨data, .inl isData.eq_nil, isPosted⟩

theorem cleanup_eq (isActive : worker.active = true) :
    worker.cleanup = { worker with active := false, timer := false, bytes := none } :=
  if_pos isActive

variable {error : String} {faults : Faults}

theorem reportError_kept (isActive : worker.active = true)
    (requested : worker.fetching = true → worker.requestReceived = true)
    (waiting : worker.fetching = true → worker.response = none)
    (unrequested : worker.requestReceived = false → worker.response = none)
    (data : Data toLowerCase worker.response worker.outgoing.sent) :
    WorkerKept toLowerCase (worker.reportError error faults)
      ∧ Answers chunks worker.outgoing worker.response (worker.reportError error faults) := by
  rw [Worker.reportError, if_pos isActive, Worker.post]
  split_ifs
  · rw [getD_none, cleanup_eq isActive]
    exact ⟨⟨requested, waiting, unrequested, data.posted, nofun⟩, rfl, fun _ same => same, .inl rfl⟩
  · rw [getD_some, cleanup_eq (by exact isActive)]
    refine ⟨⟨requested, waiting, unrequested, ⟨_, data, .inr ⟨_, rfl⟩⟩, nofun⟩, rfl,
      fun _ same => same, .inr ⟨_, rfl, nofun⟩⟩

theorem WorkerKept.reportError (kept : WorkerKept toLowerCase worker)
    (isActive : worker.active = true) :
    WorkerKept toLowerCase (worker.reportError error faults)
      ∧ Answers chunks worker.outgoing worker.response (worker.reportError error faults) :=
  reportError_kept isActive kept.requested kept.waiting kept.unrequested
    (kept.current isActive).data

theorem postOrReport_kept {message : PortMessage} (isActive : worker.active = true)
    (requested : worker.fetching = true → worker.requestReceived = true)
    (waiting : worker.fetching = true → worker.response = none)
    (unrequested : worker.requestReceived = false → worker.response = none)
    (data : Data toLowerCase worker.response worker.outgoing.sent)
    (continues : Current toLowerCase { worker with outgoing := worker.outgoing.post message })
    (allowed : message.isChunk = true → chunks = true) :
    WorkerKept toLowerCase (worker.postOrReport message faults)
      ∧ Answers chunks worker.outgoing worker.response (worker.postOrReport message faults) := by
  rw [Worker.postOrReport, Worker.post]
  split_ifs
  · exact reportError_kept isActive requested waiting unrequested data
  · exact ⟨⟨requested, waiting, unrequested, continues.data.posted, fun _ => continues⟩, rfl,
      fun _ same => same, .inr ⟨message, rfl, allowed⟩⟩

variable (kept : WorkerKept toLowerCase worker)

include kept

theorem WorkerKept.disconnect (isActive : worker.active = true) :
    WorkerKept toLowerCase worker.disconnect
      ∧ Answers chunks worker.outgoing worker.response worker.disconnect := by
  rw [Worker.disconnect, cleanup_eq isActive]
  exact ⟨⟨kept.requested, kept.waiting, kept.unrequested, kept.posted, nofun⟩, rfl,
    fun _ same => same, .inl rfl⟩

theorem WorkerKept.onResponse {response : Response} (isFetching : worker.fetching = true) :
    WorkerKept toLowerCase (worker.onResponse toLowerCase response faults)
      ∧ Answers false worker.outgoing worker.response
        (worker.onResponse toLowerCase response faults) := by
  have unserved := kept.waiting isFetching
  have requested := kept.requested isFetching
  have unrequested : worker.requestReceived = false → some response = none := by
    intro never
    exact nomatch requested.symm.trans never
  have answers : ∀ {next : Worker}, Answers false worker.outgoing (some response) next →
      Answers false worker.outgoing worker.response next := by
    intro next answered
    refine ⟨answered.delivered, ?_, answered.sent⟩
    intro served isServed
    exact nomatch unserved.symm.trans isServed
  unfold Worker.onResponse
  by_cases isActive : worker.active = true
  · rw [if_neg (by simp [isActive])]
    have current := kept.current isActive
    have silent : worker.outgoing.sent = [] := by
      have data := current.data
      rw [unserved] at data
      exact data.eq_nil
    have untouched : worker.offset = 0 := by
      rcases current with ⟨_, zero, _⟩ | ⟨_, _, isServed, _⟩
      · exact zero
      · exact nomatch unserved.symm.trans isServed
    have noData : Data toLowerCase (some response) worker.outgoing.sent := .inl silent
    split_ifs with tooLarge invalid
    · apply And.imp_right answers
      exact reportError_kept (by exact isActive) nofun nofun unrequested noData
    · apply And.imp_right answers
      exact reportError_kept (by exact isActive) nofun nofun unrequested noData
    · have valid : isRelayMetadata (Worker.metadataOf toLowerCase response) = true := by
        simpa using invalid
      apply And.imp_right answers
      refine postOrReport_kept (by exact isActive) nofun nofun unrequested noData ?_ nofun
      refine .inr ⟨response, 0, rfl, valid, Nat.zero_le _, rfl, ?_, ?_⟩
      · show worker.offset = reached response 0
        rw [untouched, reached, Nat.zero_mul, Nat.zero_min]
      · show worker.outgoing.sent ++ [_] = transcript toLowerCase response 0
        rw [silent]
        rfl
  · rw [if_pos (by simp [isActive])]
    have said := kept.posted
    rw [unserved] at said
    refine ⟨⟨nofun, nofun, unrequested, said.of_none _, ?_⟩, answers ⟨rfl, ?_, .inl rfl⟩⟩
    · intro stillActive
      exact absurd stillActive isActive
    · exact fun _ same => same

theorem WorkerKept.onFetchError :
    WorkerKept toLowerCase (worker.onFetchError error faults)
      ∧ Answers false worker.outgoing worker.response (worker.onFetchError error faults) := by
  rw [Worker.onFetchError]
  by_cases isActive : worker.active = true
  · have data := (kept.current isActive).data
    exact reportError_kept (by exact isActive) nofun nofun kept.unrequested data
  · rw [Worker.reportError, if_neg (by exact isActive)]
    refine ⟨⟨nofun, nofun, kept.unrequested, kept.posted, ?_⟩, rfl, fun _ same => same, .inl rfl⟩
    intro stillActive
    exact absurd stillActive isActive

omit kept

theorem next_piece {served : Response} {count : Nat}
    (unfinished : count * relayChunkBytes < served.body.length) :
    (served.body.take (reached served (count + 1))).drop (reached served count)
      = piece relayChunkBytes served.body count := by
  have here : reached served count = count * relayChunkBytes :=
    Nat.min_eq_left (Nat.le_of_lt unfinished)
  have whole : served.body.take (reached served (count + 1))
      = served.body.take ((count + 1) * relayChunkBytes) := by
    rw [reached, ← take_take, take_length]
  rw [here, whole, drop_take, piece, Nat.succ_mul, Nat.add_sub_cancel_left]

theorem WorkerKept.sendNextChunk (kept : WorkerKept toLowerCase worker)
    (isActive : worker.active = true) :
    WorkerKept toLowerCase (worker.sendNextChunk faults)
      ∧ Answers true worker.outgoing worker.response (worker.sendNextChunk faults) := by
  have current := kept.current isActive
  have data := current.data
  rcases current with ⟨nothing, _, _⟩ | ⟨served, count, isServed, valid, within, holds, place, said⟩
  · rw [Worker.sendNextChunk, nothing]
    exact kept.reportError isActive
  · simp only [Worker.sendNextChunk, holds]
    split_ifs with finished
    · exact kept.disconnect isActive
    · have unfinished : count * relayChunkBytes < served.body.length := by
        rw [place, reached] at finished
        omega
      have last : min (worker.offset + relayChunkBytes) served.body.length
          = reached served (count + 1) := by
        rw [place, reached, reached, Nat.succ_mul]
        omega
      refine postOrReport_kept (by exact isActive) kept.requested kept.waiting kept.unrequested data
        ?_ (fun _ => rfl)
      refine .inr ⟨served, count + 1, isServed, valid, lt_chunkCount.2 unfinished, rfl, last, ?_⟩
      show worker.outgoing.sent ++ [_] = _
      rw [said, transcript_succ, last, place, next_piece unfinished]
      rfl

theorem WorkerKept.onMessage {now : Nat} {message : PortMessage} {faults : Faults}
    (kept : WorkerKept toLowerCase worker) :
    WorkerKept toLowerCase (worker.onMessage now message faults)
      ∧ Answers (decide (message = .pull)) worker.outgoing worker.response
        (worker.onMessage now message faults) := by
  unfold Worker.onMessage
  by_cases isActive : worker.active = true
  · rw [if_neg (by simp [isActive])]
    by_cases requested : worker.requestReceived = true
    · rw [if_neg (by simp [requested])]
      cases message with
      | abort error =>
        show WorkerKept toLowerCase (if _ then _ else _) ∧ Answers _ _ _ (if _ then _ else _)
        split_ifs
        · exact kept.disconnect isActive
        · exact kept.reportError isActive
      | pull => exact kept.sendNextChunk isActive
      | request | metadata | chunk => exact kept.reportError isActive
    · rw [if_pos (by simp [requested])]
      have unserved := kept.unrequested (by simpa using requested)
      unfold Worker.onRequest
      split
      · split_ifs
        · refine ⟨⟨fun _ => rfl, fun _ => unserved, nofun, kept.posted, fun _ => ?_⟩, rfl,
            fun _ same => same, .inl rfl⟩
          exact kept.current isActive
        · exact kept.reportError isActive
      · exact kept.reportError isActive
  · rw [if_pos (by simp [isActive])]
    exact ⟨kept, Answers.refl⟩

theorem WorkerKept.onTimeout (kept : WorkerKept toLowerCase worker) :
    WorkerKept toLowerCase (worker.onTimeout faults)
      ∧ Answers false worker.outgoing worker.response (worker.onTimeout faults) := by
  rw [Worker.onTimeout]
  by_cases isActive : worker.active = true
  · have data := (kept.current isActive).data
    exact reportError_kept (by exact isActive) kept.requested kept.waiting kept.unrequested data
  · rw [Worker.reportError, if_neg (by exact isActive)]
    refine ⟨⟨kept.requested, kept.waiting, kept.unrequested, kept.posted, ?_⟩, rfl,
      fun _ same => same, .inl rfl⟩
    intro stillActive
    exact absurd stillActive isActive

theorem WorkerKept.disconnected (kept : WorkerKept toLowerCase worker) :
    WorkerKept toLowerCase { worker.cleanup with connected := false }
      ∧ Answers chunks worker.outgoing worker.response
        { worker.cleanup with connected := false } := by
  by_cases isActive : worker.active = true
  · rw [cleanup_eq isActive]
    exact ⟨⟨kept.requested, kept.waiting, kept.unrequested, kept.posted, nofun⟩, rfl,
      fun _ same => same, .inl rfl⟩
  · rw [Worker.cleanup, if_neg isActive]
    refine ⟨⟨kept.requested, kept.waiting, kept.unrequested, kept.posted, ?_⟩, rfl,
      fun _ same => same, .inl rfl⟩
    intro stillActive
    exact absurd stillActive isActive

theorem WorkerKept.of_channel {channel : Channel} {connected : Bool}
    (kept : WorkerKept toLowerCase worker) (same : channel.sent = worker.outgoing.sent) :
    WorkerKept toLowerCase { worker with outgoing := channel, connected := connected } := by
  refine ⟨kept.requested, kept.waiting, kept.unrequested, ?_, fun isActive => ?_⟩
  · show Posted toLowerCase worker.response channel.sent
    rw [same]
    exact kept.posted
  · have current := kept.current isActive
    unfold Current at current ⊢
    rw [← same] at current
    exact current

theorem WorkerKept.stop (kept : WorkerKept toLowerCase worker) :
    WorkerKept toLowerCase worker.stop :=
  ⟨nofun, nofun, kept.unrequested, kept.posted, nofun⟩

end WorkerSide

/-! ### What the content side has been given -/

section ContentSide

variable (toLowerCase : String → String)

def filled (served : Response) (count : Nat) : Bytes := served.body.take (count * relayChunkBytes)
    ++ List.replicate (served.body.length - count * relayChunkBytes) 0

def Tracks (response : Option Response) (seen : List PortMessage) (content : Content) : Prop :=
  (seen = [] ∧ content.metadata = none ∧ content.receivedBytes = 0)
    ∨ ∃ served count, response = some served
    ∧ seen = transcript toLowerCase served count
    ∧ content.metadata = some (Worker.metadataOf toLowerCase served)
    ∧ content.body = some (filled served count) ∧ content.receivedBytes = reached served count

structure ContentKept (content : Content) : Prop where
  pending : content.timer = true → content.settlements = [] ∧ content.settled = false
  finished : content.timer = false →
    content.settlements.length = 1 ∧ (content.settled = true ∨ content.connected = false)

/-- What the response becomes for the caller of `relayFetch`. -/
def relayed (served : Response) : SingleFileResponse :=
  ⟨served.status, served.url, Worker.headerRecord toLowerCase served.headers, served.body⟩

def Intact (response : Option Response) (content : Content) : Prop :=
  ∀ result, .ok result ∈ content.settlements →
    ∃ served, response = some served ∧ result = relayed toLowerCase served

structure Replies (content next : Content) : Prop where
  delivered : next.outgoing.delivered = content.outgoing.delivered
  sent : content.outgoing.sent <+: next.outgoing.sent

structure Failed (content next : Content) : Prop where
  replies : Replies content next
  settled : next.settled = true
  timer : next.timer = false
  settlements : ∃ error, next.settlements = content.settlements ++ [.error error]

structure Advanced (content next : Content) : Prop where
  replies : Replies content next
  settled : next.settled = content.settled
  timer : next.timer = content.timer
  connected : next.connected = content.connected
  settlements : next.settlements = content.settlements

variable {toLowerCase} {content next : Content} {response : Option Response}
  {seen : List PortMessage}

theorem fail_failed {error : String} {notifyWorker : Bool} {faults : Faults}
    (unsettled : content.settled = false) :
    Failed content (content.fail error notifyWorker faults) := by
  rw [Content.fail, if_neg (by simp [unsettled])]
  simp only [Content.post]
  split_ifs
  · exact ⟨⟨rfl, prefix_rfl⟩, rfl, rfl, error, rfl⟩
  · exact ⟨⟨rfl, prefix_append _ _⟩, rfl, rfl, error, rfl⟩
  · exact ⟨⟨rfl, prefix_rfl⟩, rfl, rfl, error, rfl⟩

theorem pull_advanced {faults : Faults} (unsettled : content.settled = false) :
    Failed content (content.pull faults) ∨ Advanced content (content.pull faults)
      ∧ (content.pull faults).metadata = content.metadata
      ∧ (content.pull faults).body = content.body
      ∧ (content.pull faults).receivedBytes = content.receivedBytes := by
  rw [Content.pull, Content.post]
  split_ifs
  · exact .inl (fail_failed unsettled)
  · exact .inr ⟨⟨⟨rfl, prefix_append _ _⟩, rfl, rfl, rfl, rfl⟩, rfl, rfl, rfl⟩

theorem next_message {sent : List PortMessage} {delivered : Nat} {message : PortMessage}
    (posted : Posted toLowerCase response sent) (isNext : sent[delivered]? = some message) :
    (∃ error, message = .abort error) ∨ (sent.take delivered = [] ∧ ∃ served, response = some served
        ∧ isRelayMetadata (Worker.metadataOf toLowerCase served) = true
        ∧ message = .metadata (Worker.metadataOf toLowerCase served))
      ∨ ∃ served count, response = some served ∧ count < chunkCount served
        ∧ sent.take delivered = transcript toLowerCase served count
        ∧ message = chunkMessage served count := by
  have ⟨data, isData, isPosted⟩ := posted
  -- a message past the data is the abort
  have past : ∀ {place : Nat}, data.length ≤ place → sent[place]? = some message →
      ∃ error, message = .abort error := by
    intro place beyond found
    rcases isPosted with rfl | ⟨error, rfl⟩
    · rw [getElem?_eq_none beyond] at found
      exact nomatch found
    · rw [getElem?_append_right beyond, getElem?_singleton] at found
      split_ifs at found
      exact ⟨error, (some.inj found).symm⟩
  have within : ∀ {place : Nat}, place < data.length →
      sent[place]? = data[place]? ∧ sent.take place = data.take place := by
    intro place before
    rcases isPosted with rfl | ⟨error, rfl⟩
    · exact ⟨rfl, rfl⟩
    · exact ⟨getElem?_append_left before, take_append_of_le_length (Nat.le_of_lt before)⟩
  rcases Nat.lt_or_ge delivered data.length with before | beyond
  · have ⟨samePlace, sameTaken⟩ := within before
    rw [samePlace] at isNext
    rcases isData with rfl | ⟨served, count, isServed, valid, bounded, rfl⟩
    · exact absurd before (Nat.not_lt_zero _)
    · rw [length_transcript] at before
      refine .inr ?_
      cases delivered with
      | zero => exact .inl ⟨rfl, served, isServed, valid, (some.inj isNext).symm⟩
      | succ place =>
        have below : place < count := by omega
        refine .inr ⟨served, place, isServed, by omega, ?_, ?_⟩
        · rw [sameTaken, take_transcript _ _ (Nat.le_of_lt below)]
        · rw [transcript, getElem?_cons_succ, getElem?_map, getElem?_range below] at isNext
          exact (some.inj isNext).symm
  · exact .inl (past beyond isNext)

variable {served : Response}

theorem setBytes_filled {count : Nat} (unfinished : count * relayChunkBytes < served.body.length) :
    Content.setBytes (filled served count) (piece relayChunkBytes served.body count)
        (reached served count)
      = filled served (count + 1) := by
  have here : reached served count = count * relayChunkBytes :=
    Nat.min_eq_left (Nat.le_of_lt unfinished)
  have taken : (served.body.take (count * relayChunkBytes)).length = count * relayChunkBytes := by
    rw [length_take, Nat.min_eq_left (Nat.le_of_lt unfinished)]
  have sized : (piece relayChunkBytes served.body count).length
      = min relayChunkBytes (served.body.length - count * relayChunkBytes) := by
    rw [piece, length_take, length_drop]
  rw [Content.setBytes, here, filled, filled, Nat.succ_mul, take_add,
    take_left' taken, drop_append, taken, drop_replicate,
    drop_eq_nil_of_le (by omega), nil_append]
  have zeros : served.body.length - count * relayChunkBytes
      - (count * relayChunkBytes + (piece relayChunkBytes served.body count).length
        - count * relayChunkBytes)
      = served.body.length - (count * relayChunkBytes + relayChunkBytes) := by
    rw [sized]
    omega
  rw [zeros]
  rfl

theorem reached_succ {served : Response} {count : Nat}
    (unfinished : count * relayChunkBytes < served.body.length) :
    reached served count + (piece relayChunkBytes served.body count).length
      = reached served (count + 1) := by
  rw [piece, length_take, length_drop, reached, reached, Nat.succ_mul]
  omega

theorem filled_of_reached {count : Nat} (whole : reached served count = served.body.length) :
    filled served count = served.body := by
  have enough : served.body.length ≤ count * relayChunkBytes := by
    rw [reached] at whole
    omega
  rw [filled, take_of_length_le enough, Nat.sub_eq_zero_of_le enough, replicate_zero, append_nil]

theorem onMetadata_tracks {faults : Faults} (isServed : response = some served)
    (valid : isRelayMetadata (Worker.metadataOf toLowerCase served) = true)
    (unsettled : content.settled = false) (unreceived : content.receivedBytes = 0) :
    Failed content (content.onMetadata (Worker.metadataOf toLowerCase served) faults)
      ∨ Advanced content (content.onMetadata (Worker.metadataOf toLowerCase served) faults)
        ∧ Tracks toLowerCase response [.metadata (Worker.metadataOf toLowerCase served)]
          (content.onMetadata (Worker.metadataOf toLowerCase served) faults) := by
  rw [Content.onMetadata, if_neg (by simp [valid])]
  cases faults.allocationError with
  | some error =>
    have failed := @fail_failed
      { content with metadata := some (Worker.metadataOf toLowerCase served) }
      ("Relay fetch could not process a port message: " ++ errorMessage error) true faults
      unsettled
    exact .inl ⟨⟨failed.replies.delivered, failed.replies.sent⟩, failed.settled, failed.timer,
      failed.settlements⟩
  | none =>
    rcases @pull_advanced { content with
        metadata := some (Worker.metadataOf toLowerCase served)
        body := some (List.replicate (Worker.metadataOf toLowerCase served).byteLength 0) }
      faults unsettled with failed | ⟨advanced, metadata, body, received⟩
    · exact .inl ⟨⟨failed.replies.delivered, failed.replies.sent⟩, failed.settled, failed.timer,
        failed.settlements⟩
    · refine .inr ⟨⟨⟨advanced.replies.delivered, advanced.replies.sent⟩, advanced.settled,
        advanced.timer, advanced.connected, advanced.settlements⟩, .inr ?_⟩
      refine ⟨served, 0, isServed, rfl, metadata, ?_, ?_⟩
      · rw [body, filled, Nat.zero_mul, take_zero, nil_append]
        rfl
      · rw [received]
        show content.receivedBytes = _
        rw [unreceived, reached, Nat.zero_mul, Nat.zero_min]

theorem onChunk_tracks {served : Response} {count : Nat} {faults : Faults}
    (isServed : response = some served) (below : count < chunkCount served)
    (unsettled : content.settled = false)
    (metadata : content.metadata = some (Worker.metadataOf toLowerCase served))
    (body : content.body = some (filled served count))
    (received : content.receivedBytes = reached served count) :
    Failed content (content.onChunk (Worker.metadataOf toLowerCase served)
          (encodeBase64 (piece relayChunkBytes served.body count)) faults)
      ∨ Advanced content (content.onChunk (Worker.metadataOf toLowerCase served)
          (encodeBase64 (piece relayChunkBytes served.body count)) faults)
        ∧ Tracks toLowerCase response (transcript toLowerCase served (count + 1))
          (content.onChunk (Worker.metadataOf toLowerCase served)
            (encodeBase64 (piece relayChunkBytes served.body count)) faults) := by
  have unfinished := lt_chunkCount.1 below
  have sized : (piece relayChunkBytes served.body count).length
      = min relayChunkBytes (served.body.length - count * relayChunkBytes) := by
    rw [piece, length_take, length_drop]
  have positive := relayChunkBytes_pos
  have some : piece relayChunkBytes served.body count ≠ [] := by
    rw [← length_pos_iff, sized]
    omega
  have small : (piece relayChunkBytes served.body count).length ≤ relayChunkBytes := by
    rw [sized]
    omega
  have placed := @reached_succ served count unfinished
  have fits : ¬(relayChunkBytes < (piece relayChunkBytes served.body count).length
      ∨ (Worker.metadataOf toLowerCase served).byteLength
        < content.receivedBytes + (piece relayChunkBytes served.body count).length) := by
    have bounded : reached served (count + 1) ≤ served.body.length := Nat.min_le_right _ _
    rw [received, placed]
    show ¬(_ ∨ served.body.length < reached served (count + 1))
    omega
  rw [Content.onChunk, if_neg (by simp [isRelayChunk_encodeBase64 some small])]
  simp only [decodeBase64_encodeBase64, if_neg fits]
  rcases @pull_advanced { content with
      body := content.body.map fun body =>
        Content.setBytes body (piece relayChunkBytes served.body count) content.receivedBytes
      receivedBytes := content.receivedBytes + (piece relayChunkBytes served.body count).length }
    faults unsettled with failed | ⟨advanced, sameMetadata, sameBody, sameReceived⟩
  · exact .inl ⟨⟨failed.replies.delivered, failed.replies.sent⟩, failed.settled, failed.timer,
      failed.settlements⟩
  · refine .inr ⟨⟨⟨advanced.replies.delivered, advanced.replies.sent⟩, advanced.settled,
      advanced.timer, advanced.connected, advanced.settlements⟩, .inr ?_⟩
    refine ⟨served, count + 1, isServed, rfl, sameMetadata.trans metadata, ?_, ?_⟩
    · rw [sameBody, body, received, map_some, setBytes_filled unfinished]
    · rw [sameReceived, ← placed, ← received]

theorem onMessage_tracks {sent : List PortMessage} {delivered : Nat} {message : PortMessage}
    {faults : Faults} (posted : Posted toLowerCase response sent)
    (isNext : sent[delivered]? = some message) (unsettled : content.settled = false)
    (tracks : Tracks toLowerCase response (sent.take delivered) content) :
    Failed content (content.onMessage message faults)
      ∨ Advanced content (content.onMessage message faults)
        ∧ Tracks toLowerCase response (sent.take (delivered + 1))
          (content.onMessage message faults) := by
  have grown : sent.take (delivered + 1) = sent.take delivered ++ [message] := by
    rw [take_add_one, isNext]
    rfl
  unfold Content.onMessage
  rw [grown, if_neg (by simp [unsettled])]
  rcases next_message posted isNext with ⟨error, rfl⟩ | ⟨nothing, served, isServed, valid, rfl⟩
    | ⟨served, count, isServed, below, seen, rfl⟩
  · simp only
    split_ifs
    · exact .inl (fail_failed unsettled)
    · exact .inl (fail_failed unsettled)
  · rcases tracks with ⟨_, unknown, unreceived⟩ | ⟨_, _, _, seen, _⟩
    · simp only [unknown, nothing, nil_append]
      exact onMetadata_tracks isServed valid unsettled unreceived
    · rw [nothing] at seen
      exact nomatch seen
  · rcases tracks with ⟨nothing, _⟩ | ⟨other, number, isOther, seenToo, metadata, body, received⟩
    · rw [nothing] at seen
      exact nomatch seen
    · have sameResponse : other = served := some.inj (isOther.symm.trans isServed)
      have sameCount : number = count := by
        have lengths := congrArg List.length (seenToo.symm.trans seen)
        rw [length_transcript, length_transcript] at lengths
        omega
      rw [sameResponse, sameCount] at body received
      rw [sameResponse] at metadata
      simp only [chunkMessage, metadata, seen]
      have taken := @onChunk_tracks toLowerCase content response served count faults isServed below
        unsettled metadata body received
      rw [transcript_succ] at taken
      exact taken

end ContentSide

/-! ### Whole exchanges -/

section Exchanges

variable (toLowerCase : String → String)

def pullsReceived (content : Content) : Nat :=
  (content.outgoing.sent.take content.outgoing.delivered).count .pull

def chunksSent (worker : Worker) : Nat := worker.outgoing.sent.countP PortMessage.isChunk

def Worker.seen (worker : Worker) : List PortMessage :=
  worker.outgoing.sent.take worker.outgoing.delivered

structure Kept (exchange : Exchange) : Prop where
  worker : WorkerKept toLowerCase exchange.worker
  content : ContentKept exchange.content
  tracks : exchange.content.settled = false →
    Tracks toLowerCase exchange.worker.response exchange.worker.seen exchange.content
  intact : Intact toLowerCase exchange.worker.response exchange.content
  toContent : exchange.worker.outgoing.delivered ≤ exchange.worker.outgoing.sent.length
  toWorker : exchange.content.outgoing.delivered ≤ exchange.content.outgoing.sent.length
  answered : chunksSent exchange.worker ≤ pullsReceived exchange.content

variable {toLowerCase} {exchange : Exchange} {content : Content} {worker next : Worker}
  {response known : Option Response}

theorem Tracks.later {seen : List PortMessage} (tracks : Tracks toLowerCase response seen content)
    (same : ∀ served, response = some served → known = some served) :
    Tracks toLowerCase known seen content := by
  rcases tracks with nothing | ⟨served, count, isServed, holds⟩
  · exact .inl nothing
  · exact .inr ⟨served, count, same served isServed, holds⟩

theorem Intact.later (intact : Intact toLowerCase response content)
    (same : ∀ served, response = some served → known = some served) :
    Intact toLowerCase known content := by
  intro result resolved
  have ⟨served, isServed, isResult⟩ := intact result resolved
  exact ⟨served, same served isServed, isResult⟩

section Answers

variable {chunks : Bool} (answers : Answers chunks worker.outgoing worker.response next)

include answers

theorem Answers.seen (bound : worker.outgoing.delivered ≤ worker.outgoing.sent.length) :
    next.seen = worker.seen := by
  rw [Worker.seen, Worker.seen, answers.delivered]
  rcases answers.sent with same | ⟨message, grown, _⟩
  · rw [same]
  · rw [grown, take_append_of_le_length bound]

theorem Answers.length : worker.outgoing.sent.length ≤ next.outgoing.sent.length
    ∧ next.outgoing.sent.length ≤ worker.outgoing.sent.length + 1 := by
  rcases answers.sent with same | ⟨message, grown, _⟩
  · rw [same]
    omega
  · rw [grown, length_append, length_singleton]
    omega

theorem Answers.chunksSent : chunksSent next ≤ chunksSent worker + chunks.toNat := by
  unfold Relay.chunksSent
  rcases answers.sent with same | ⟨message, grown, allowed⟩
  · rw [same]
    omega
  · rw [grown, countP_append, countP_singleton]
    split_ifs with isChunk
    · rw [allowed isChunk]
      exact Nat.le_refl _
    · omega

theorem Kept.answered_by (kept : Kept toLowerCase exchange) (isWorker : exchange.worker = worker)
    (keptWorker : WorkerKept toLowerCase next)
    (counted : Relay.chunksSent next ≤ pullsReceived content)
    (isContent : ∃ channel, content = { exchange.content with outgoing := channel }
      ∧ channel.delivered ≤ channel.sent.length) : Kept toLowerCase ⟨content, next⟩ := by
  subst isWorker
  obtain ⟨channel, rfl, bounded⟩ := isContent
  have sameSeen := answers.seen kept.toContent
  refine ⟨keptWorker, ⟨kept.content.pending, kept.content.finished⟩, ?_, ?_, ?_, bounded, counted⟩
  · intro unsettled
    show Tracks toLowerCase next.response next.seen _
    rw [sameSeen]
    exact (kept.tracks unsettled).later answers.response
  · exact Intact.later kept.intact answers.response
  · show next.outgoing.delivered ≤ _
    rw [answers.delivered]
    exact Nat.le_trans kept.toContent answers.length.1

end Answers

theorem Kept.of_worker (kept : Kept toLowerCase exchange) (stepped : WorkerKept toLowerCase next
      ∧ Answers false exchange.worker.outgoing exchange.worker.response next) :
    Kept toLowerCase { exchange with worker := next } := by
  have counted := stepped.2.chunksSent
  have answered := kept.answered
  refine kept.answered_by stepped.2 rfl stepped.1 ?_ ⟨exchange.content.outgoing, rfl, kept.toWorker⟩
  simp only [Bool.toNat_false] at counted
  show _ ≤ pullsReceived exchange.content
  omega

theorem Replies.received {after : Content} (replies : Replies content after)
    (bound : content.outgoing.delivered ≤ content.outgoing.sent.length) :
    pullsReceived after = pullsReceived content
      ∧ after.outgoing.delivered ≤ after.outgoing.sent.length := by
  have ⟨more, grown⟩ := replies.sent
  rw [pullsReceived, pullsReceived, replies.delivered, ← grown,
    take_append_of_le_length bound, length_append]
  exact ⟨rfl, by omega⟩

theorem Kept.of_content {after : Content} (kept : Kept toLowerCase exchange)
    (replies : Replies exchange.content after) (keptContent : ContentKept after)
    (tracks : after.settled = false →
      Tracks toLowerCase exchange.worker.response exchange.worker.seen after)
    (intact : Intact toLowerCase exchange.worker.response after) :
    Kept toLowerCase { exchange with content := after } := by
  have ⟨samePulls, bounded⟩ := replies.received kept.toWorker
  refine ⟨kept.worker, keptContent, tracks, intact, kept.toContent, bounded, ?_⟩
  show _ ≤ pullsReceived after
  rw [samePulls]
  exact kept.answered

theorem ContentKept.waiting (kept : ContentKept content) (isConnected : content.connected = true)
    (unsettled : content.settled = false) : content.timer = true ∧ content.settlements = [] := by
  have isSet : content.timer = true := by
    by_contra unset
    rcases (kept.finished (by simpa using unset)).2 with isSettled | isClosed
    · exact nomatch unsettled.symm.trans isSettled
    · exact nomatch isConnected.symm.trans isClosed
  exact ⟨isSet, (kept.pending isSet).1⟩

theorem Failed.kept {after : Content} (failed : Failed content after)
    (fresh : content.settlements = []) :
    ContentKept after ∧ Intact toLowerCase response after := by
  have ⟨error, settlements⟩ := failed.settlements
  rw [fresh, nil_append] at settlements
  refine ⟨⟨?_, ?_⟩, ?_⟩
  · intro isSet
    exact nomatch failed.timer.symm.trans isSet
  · intro _
    rw [settlements]
    exact ⟨rfl, .inl failed.settled⟩
  · intro result resolved
    rw [settlements] at resolved
    simp at resolved

theorem Kept.contentTimeout (kept : Kept toLowerCase exchange)
    (isSet : exchange.content.timer = true) :
    Kept toLowerCase { exchange with content := exchange.content.onTimeout } := by
  have ⟨fresh, unsettled⟩ := kept.content.pending isSet
  have settlements : exchange.content.onTimeout.settlements = [.error timeoutError] := by
    show exchange.content.settlements ++ _ = _
    rw [fresh, nil_append]
  have replies : Replies exchange.content exchange.content.onTimeout := ⟨rfl, prefix_rfl⟩
  apply kept.of_content replies
  · refine ⟨nofun, fun _ => ⟨?_, .inr rfl⟩⟩
    rw [settlements]
    rfl
  · exact fun _ => kept.tracks unsettled
  · intro result resolved
    rw [settlements] at resolved
    simp at resolved

theorem onDisconnect_cases (unsettled : content.settled = false) :
    Failed content content.onDisconnect
      ∨ (∃ metadata body, content.metadata = some metadata ∧ content.body = some body
        ∧ content.receivedBytes = metadata.byteLength
        ∧ content.onDisconnect.settlements = content.settlements
            ++ [.ok ⟨metadata.status, metadata.url, metadata.headers, body⟩])
        ∧ Replies content content.onDisconnect ∧ content.onDisconnect.settled = true
        ∧ content.onDisconnect.timer = false := by
  unfold Content.onDisconnect
  rw [if_neg (by simp [unsettled])]
  split
  · rename_i metadata body isMetadata isBody
    split_ifs with whole
    · exact .inr ⟨⟨metadata, body, isMetadata, isBody, whole, rfl⟩, ⟨rfl, prefix_rfl⟩, rfl, rfl⟩
    · exact .inl ⟨⟨rfl, prefix_rfl⟩, rfl, rfl, _, rfl⟩
  · exact .inl ⟨⟨rfl, prefix_rfl⟩, rfl, rfl, _, rfl⟩

theorem Kept.disconnectContent (kept : Kept toLowerCase exchange)
    (isConnected : exchange.content.connected = true) :
    Kept toLowerCase
      { exchange with content := { exchange.content.onDisconnect with connected := false } } := by
  by_cases unsettled : exchange.content.settled = false
  · have fresh := (kept.content.waiting isConnected unsettled).2
    rcases onDisconnect_cases unsettled with failed
      | ⟨⟨metadata, body, isMetadata, isBody, whole, settlements⟩, replies, settled, timer⟩
    · have closed : Failed exchange.content
          { exchange.content.onDisconnect with connected := false } :=
        ⟨⟨failed.replies.delivered, failed.replies.sent⟩, failed.settled, failed.timer,
          failed.settlements⟩
      have ended := @Failed.kept toLowerCase exchange.content exchange.worker.response _ closed fresh
      apply kept.of_content closed.replies ended.1 ?_ ended.2
      intro unfinished
      exact nomatch closed.settled.symm.trans unfinished
    · rw [fresh, nil_append] at settlements
      have closed : Replies exchange.content
          { exchange.content.onDisconnect with connected := false } :=
        ⟨replies.delivered, replies.sent⟩
      apply kept.of_content closed
      · refine ⟨fun isSet => ?_, fun _ => ⟨?_, .inr rfl⟩⟩
        · exact nomatch timer.symm.trans isSet
        · show exchange.content.onDisconnect.settlements.length = 1
          rw [settlements]
          rfl
      · intro unfinished
        exact nomatch settled.symm.trans unfinished
      · intro result resolved
        have isResult : result = ⟨metadata.status, metadata.url, metadata.headers, body⟩ := by
          have member : .ok result ∈ exchange.content.onDisconnect.settlements := resolved
          rw [settlements] at member
          simpa using member
        rcases kept.tracks unsettled with ⟨_, unknown, _⟩
          | ⟨served, count, isServed, _, isServedMetadata, filledBody, received⟩
        · exact nomatch unknown.symm.trans isMetadata
        · have sameMetadata := some.inj (isMetadata.symm.trans isServedMetadata)
          have sameBody := some.inj (isBody.symm.trans filledBody)
          have atEnd : reached served count = served.body.length := by
            rw [← received, whole, sameMetadata]
            rfl
          refine ⟨served, isServed, ?_⟩
          rw [isResult, sameMetadata, sameBody, filled_of_reached atEnd]
          rfl
  · have settled : exchange.content.settled = true := by simpa using unsettled
    rw [Content.onDisconnect, if_pos settled]
    have replies : Replies exchange.content { exchange.content with connected := false } :=
      ⟨rfl, prefix_rfl⟩
    apply kept.of_content replies
    · exact ⟨kept.content.pending, fun unset => ⟨(kept.content.finished unset).1, .inr rfl⟩⟩
    · exact fun unfinished => absurd unfinished unsettled
    · exact kept.intact

variable {message : PortMessage}

theorem Channel.next_some {channel : Channel} (isNext : channel.next = some message) :
    channel.sent[channel.delivered]? = some message := by
  rw [Channel.next, Channel.inFlight] at isNext
  split_ifs at isNext
  · exact nomatch isNext
  · rwa [head?_drop] at isNext

variable (kept : Kept toLowerCase exchange)

include kept

theorem Kept.deliverToContent {faults : Faults}
    (isNext : exchange.worker.outgoing.next = some message)
    (isConnected : exchange.content.connected = true) :
    Kept toLowerCase ⟨exchange.content.onMessage message faults,
      { exchange.worker with outgoing := exchange.worker.outgoing.deliver }⟩ := by
  have found := Channel.next_some isNext
  have inside : exchange.worker.outgoing.delivered < exchange.worker.outgoing.sent.length :=
    (List.getElem?_eq_some_iff.1 found).1
  have keptWorker : WorkerKept toLowerCase
      { exchange.worker with outgoing := exchange.worker.outgoing.deliver } :=
    kept.worker.of_channel rfl
  have sameChunks := kept.answered
  by_cases unsettled : exchange.content.settled = false
  · have fresh := kept.content.waiting isConnected unsettled
    rcases @onMessage_tracks toLowerCase exchange.content exchange.worker.response
      exchange.worker.outgoing.sent exchange.worker.outgoing.delivered message faults
      kept.worker.posted found unsettled (kept.tracks unsettled) with failed | ⟨advanced, tracks⟩
    · have ended := @Failed.kept toLowerCase exchange.content exchange.worker.response _ failed
        fresh.2
      have ⟨samePulls, bounded⟩ := failed.replies.received kept.toWorker
      refine ⟨keptWorker, ended.1, ?_, ended.2, inside, bounded, ?_⟩
      · intro unfinished
        exact nomatch failed.settled.symm.trans unfinished
      · rw [samePulls]
        exact sameChunks
    · have ⟨samePulls, bounded⟩ := advanced.replies.received kept.toWorker
      refine ⟨keptWorker, ⟨?_, ?_⟩, fun _ => tracks, ?_, inside, bounded, ?_⟩
      · rw [advanced.settlements, advanced.settled]
        exact fun _ => ⟨fresh.2, unsettled⟩
      · rw [advanced.timer, fresh.1]
        exact nofun
      · intro result resolved
        rw [advanced.settlements, fresh.2] at resolved
        exact nomatch resolved
      · rw [samePulls]
        exact sameChunks
  · have settled : exchange.content.settled = true := by simpa using unsettled
    unfold Content.onMessage
    rw [if_pos settled]
    exact ⟨keptWorker, kept.content, fun unfinished => absurd unfinished unsettled, kept.intact,
      inside, kept.toWorker, sameChunks⟩

theorem Kept.deliverToWorker {now : Nat} {faults : Faults}
    (isNext : exchange.content.outgoing.next = some message) :
    Kept toLowerCase ⟨{ exchange.content with outgoing := exchange.content.outgoing.deliver },
      exchange.worker.onMessage now message faults⟩ := by
  have found := Channel.next_some isNext
  have inside : exchange.content.outgoing.delivered < exchange.content.outgoing.sent.length :=
    (List.getElem?_eq_some_iff.1 found).1
  have ⟨keptWorker, answers⟩ := @WorkerKept.onMessage toLowerCase exchange.worker now message
    faults kept.worker
  have counted := answers.chunksSent
  have pulls : pullsReceived { exchange.content with outgoing := exchange.content.outgoing.deliver }
      = pullsReceived exchange.content + (decide (message = .pull)).toNat := by
    show ((exchange.content.outgoing.sent.take (exchange.content.outgoing.delivered + 1)).count
      .pull) = _
    rw [take_add_one, found, toList_some, count_append, count_singleton]
    by_cases isPull : message = .pull
    · simp [isPull, pullsReceived]
    · simp [isPull, pullsReceived]
  have answered := kept.answered
  apply kept.answered_by answers rfl keptWorker
  · rw [pulls]
    omega
  · exact ⟨exchange.content.outgoing.deliver, rfl, inside⟩

theorem kept_step {action : Step} {after : Exchange}
    (steps : step toLowerCase exchange action = some after) : Kept toLowerCase after := by
  have sameWorker : ∀ {channel : Channel}, channel.sent = exchange.worker.outgoing.sent →
      channel.delivered = exchange.worker.outgoing.delivered →
      Kept toLowerCase
        { exchange with worker := { exchange.worker with outgoing := channel } } := by
    intro channel sameSent sameDelivered
    exact kept.of_worker ⟨kept.worker.of_channel sameSent, sameDelivered, fun _ same => same,
      .inl sameSent⟩
  have sameContent : ∀ {channel : Channel}, channel.sent = exchange.content.outgoing.sent →
      channel.delivered = exchange.content.outgoing.delivered →
      Kept toLowerCase
        { exchange with content := { exchange.content with outgoing := channel } } := by
    intro channel sameSent sameDelivered
    have replies : Replies exchange.content { exchange.content with outgoing := channel } :=
      ⟨sameDelivered, by rw [sameSent]⟩
    exact kept.of_content replies ⟨kept.content.pending, kept.content.finished⟩ kept.tracks
      kept.intact
  unfold step at steps
  cases action with
  | deliverToWorker now faults =>
    simp only at steps
    split at steps
    · exact nomatch steps
    · rename_i message isNext
      split_ifs at steps
      rw [← some.inj steps]
      exact kept.deliverToWorker isNext
  | deliverToContent faults =>
    simp only at steps
    split at steps
    · exact nomatch steps
    · rename_i message isNext
      split_ifs at steps with isConnected
      rw [← some.inj steps]
      exact kept.deliverToContent isNext isConnected
  | disconnectWorker =>
    simp only at steps
    split_ifs at steps
    rw [← some.inj steps]
    exact kept.of_worker kept.worker.disconnected
  | disconnectContent =>
    simp only at steps
    split_ifs at steps with told
    rw [← some.inj steps]
    exact kept.disconnectContent (by simp_all)
  | contentTimeout =>
    simp only at steps
    split_ifs at steps with isSet
    rw [← some.inj steps]
    exact kept.contentTimeout isSet
  | workerTimeout faults =>
    simp only at steps
    split_ifs at steps
    rw [← some.inj steps]
    exact kept.of_worker kept.worker.onTimeout
  | fetchResolves response faults =>
    simp only at steps
    split_ifs at steps with isFetching
    rw [← some.inj steps]
    exact kept.of_worker (kept.worker.onResponse isFetching)
  | fetchRejects error faults =>
    simp only at steps
    split_ifs at steps
    rw [← some.inj steps]
    exact kept.of_worker kept.worker.onFetchError
  | loseToWorker | closeContentEnd =>
    rw [← some.inj steps]
    exact sameContent rfl rfl
  | loseToContent | closeWorkerEnd =>
    rw [← some.inj steps]
    exact sameWorker rfl rfl
  | stopWorker =>
    rw [← some.inj steps]
    exact kept.of_worker ⟨kept.worker.stop, rfl, fun _ same => same, .inl rfl⟩

theorem settlements_step {action : Step} {after : Exchange}
    (settled : exchange.content.settlements ≠ [])
    (steps : step toLowerCase exchange action = some after) :
    after.content.settlements = exchange.content.settlements := by
  have unset : exchange.content.timer = false := by
    by_contra isSet
    exact settled (kept.content.pending (by simpa using isSet)).1
  have ended : exchange.content.connected = true → exchange.content.settled = true := by
    intro isConnected
    by_contra unsettled
    exact settled (kept.content.waiting isConnected (by simpa using unsettled)).2
  unfold step at steps
  cases action with
  | deliverToWorker now faults =>
    simp only at steps
    split at steps
    · exact nomatch steps
    · split_ifs at steps
      rw [← some.inj steps]
  | deliverToContent faults =>
    simp only at steps
    split at steps
    · exact nomatch steps
    · split_ifs at steps with isConnected
      rw [← some.inj steps]
      unfold Content.onMessage
      rw [if_pos (ended isConnected)]
  | disconnectContent =>
    simp only at steps
    split_ifs at steps with told
    rw [← some.inj steps]
    have isSettled := ended (by simp_all)
    show exchange.content.onDisconnect.settlements = _
    rw [Content.onDisconnect, if_pos isSettled]
  | contentTimeout =>
    simp only [unset, Bool.false_eq_true, if_false] at steps
    exact nomatch steps
  | disconnectWorker | workerTimeout _ | fetchResolves _ _ | fetchRejects _ _ =>
    simp only at steps
    split_ifs at steps
    rw [← some.inj steps]
  | loseToWorker | loseToContent | closeContentEnd | closeWorkerEnd | stopWorker =>
    rw [← some.inj steps]

omit kept

theorem kept_opened (url : String) (headers : Option Record) (deadlineMs : Nat) (faults : Faults) :
    Kept toLowerCase (opened url headers deadlineMs faults) := by
  have silent : WorkerKept toLowerCase Worker.start :=
    ⟨nofun, nofun, fun _ => rfl, ⟨[], .inl rfl, .inl rfl⟩, fun _ => .inl ⟨rfl, rfl, rfl⟩⟩
  unfold opened Content.start
  simp only [Content.post]
  split_ifs
  · have failed := @fail_failed ⟨url, none, none, 0, false, true, true, Channel.opened, []⟩
      (Content.disconnectedMessage ⟨url, none, none, 0, false, true, true, Channel.opened, []⟩)
      false faults rfl
    have ended := @Failed.kept toLowerCase _ none _ failed rfl
    have ⟨_, bounded⟩ := failed.replies.received (Nat.le_refl 0)
    refine ⟨silent, ended.1, ?_, ended.2, Nat.le_refl 0, bounded, Nat.zero_le _⟩
    intro unfinished
    exact nomatch failed.settled.symm.trans unfinished
  · exact ⟨silent, ⟨fun _ => ⟨rfl, rfl⟩, nofun⟩, fun _ => .inl ⟨rfl, rfl, rfl⟩, nofun,
      Nat.le_refl 0, Nat.zero_le _, Nat.zero_le _⟩

end Exchanges

/-! ### Headers -/

def Quiet (exchange : Exchange) : Prop :=
  exchange.content.outgoing.inFlight = [] ∧ exchange.worker.outgoing.inFlight = []
    ∧ exchange.worker.fetching = false ∧ exchange.worker.timer = false
    ∧ exchange.content.timer = false

/-- The promise has the response the worker fetched and was settled at most once; there are no
more chunks than pulls; and where nothing goes on it is settled. -/
theorem relayFetch_intact (toLowerCase : String → String) (url : String)
    (headers : Option Record) (deadlineMs : Nat) (faults : Faults) (actions : List Step)
    (exchange : Exchange)
    (runs : run (step toLowerCase) (opened url headers deadlineMs faults) actions = some exchange) :
    (∀ result, .ok result ∈ exchange.content.settlements →
        ∃ served, exchange.worker.response = some served ∧ result = ⟨served.status, served.url,
            Worker.headerRecord toLowerCase served.headers, served.body⟩)
      ∧ (exchange.content.settlements.length ≤ 1
        ∧ ∀ action after, step toLowerCase exchange action = some after →
          exchange.content.settlements ≠ [] →
          after.content.settlements = exchange.content.settlements)
      ∧ (chunksSent exchange.worker ≤ pullsReceived exchange.content
        ∧ ∀ now faults after, exchange.content.outgoing.next = some .pull →
          step toLowerCase exchange (.deliverToWorker now faults) = some after →
          after.worker.outgoing.sent.length ≤ exchange.worker.outgoing.sent.length + 1)
      ∧ (Quiet exchange → exchange.content.settlements.length = 1) := by
  have kept : Kept toLowerCase exchange :=
    invariant_of_run (fun _ _ _ kept steps => kept_step kept steps)
      (kept_opened url headers deadlineMs faults) runs
  refine ⟨kept.intact, ⟨?_, ?_⟩, ⟨kept.answered, ?_⟩, ?_⟩
  · by_cases isSet : exchange.content.timer = true
    · rw [(kept.content.pending isSet).1]
      exact Nat.zero_le 1
    · exact Nat.le_of_eq (kept.content.finished (by simpa using isSet)).1
  · intro action after steps settled
    exact settlements_step kept settled steps
  · intro now faults after isPull steps
    simp only [step, isPull] at steps
    split_ifs at steps
    rw [← some.inj steps]
    exact (kept.worker.onMessage).2.length.2
  · intro quiet
    exact (kept.content.finished quiet.2.2.2.2).1

def greeting : Response :=
  ⟨200, "https://example.org/a", [("Content-Type", "text/plain")], [104, 105]⟩

def noFaults : Faults := ⟨none, false, none⟩

def greetingRun : List Step :=
  [.deliverToWorker 0 noFaults, .fetchResolves greeting noFaults, .deliverToContent noFaults,
    .deliverToWorker 1 noFaults, .deliverToContent noFaults, .deliverToWorker 2 noFaults,
    .disconnectContent]

theorem relayFetch_intact_greeting :
    ∃ exchange, run (step String.toLower) (opened "https://example.org/a" none 15000 noFaults)
        greetingRun = some exchange
      ∧ exchange.content.settlements
        = [.ok ⟨200, "https://example.org/a", [("content-type", "text/plain")], [104, 105]⟩]
      ∧ exchange.content.settlements.length ≤ 1 := by
  have evaluated : (run (step String.toLower) (opened "https://example.org/a" none 15000 noFaults)
      greetingRun).map (fun exchange => exchange.content.settlements)
      = some [.ok ⟨200, "https://example.org/a", [("content-type", "text/plain")], [104, 105]⟩] := by
    decide +kernel
  have ⟨exchange, runs, settlements⟩ := map_eq_some_iff.1 evaluated
  exact ⟨exchange, runs, settlements, (relayFetch_intact _ _ _ _ _ _ _ runs).2.1.1⟩

end Clepsydra.Capture.Relay
