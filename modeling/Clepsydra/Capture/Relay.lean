import Clepsydra.Library.Bytes
import Clepsydra.Library.JsText
import Clepsydra.Library.Transitions

/-!
Owns: the port over which the worker fetches a resource for a content script.

A direction delivers its messages in order, may stop at any point, and tells the other end of the
disconnect at most once. An end that has disconnected hears nothing more.
-/

namespace Clepsydra.Capture.Relay

open Library Library.Transitions

abbrev Bytes := List UInt8

def snapshotNetworkTimeoutMs : Nat := 15000

def relayChunkBytes : Nat := 4 * 1024 * 1024

def maxRelayChunkBase64Length : Nat := 4 * ((relayChunkBytes + 2) / 3)

def maxRelayResourceBytes : Nat := 0xffffffff

/-- `Number.MAX_SAFE_INTEGER`. -/
def maxSafeInteger : Nat := 2 ^ 53 - 1

/-! ### Headers -/

abbrev Record := List (String × String)

/-- `record[key] = value`. A text given to `__proto__` makes no property. -/
def Record.assign (record : Record) (key value : String) : Record :=
  if key = "__proto__" then record
  else if record.any fun entry => entry.1 = key then
    record.map fun entry => if entry.1 = key then (key, value) else entry
  else record ++ [(key, value)]

inductive Property where
  | text (value : String)
  | inherited
  | missing

/-- `record[key]`, for a key without capitals: two members of `Object.prototype` have such a
name. -/
def Record.read (record : Record) (key : String) : Property :=
  match record.find? fun entry => entry.1 = key with
  | some entry => .text entry.2
  | none => if key = "__proto__" ∨ key = "constructor" then .inherited else .missing

/-! ### Messages -/

structure RelayFetchRequest where
  url : String
  headers : Option Record
  deadlineMs : Nat
deriving DecidableEq

structure RelayMetadata where
  status : Nat
  url : String
  headers : Record
  byteLength : Nat
deriving DecidableEq

/-- `RelayPortMessage`, and the request that opens the exchange. -/
inductive PortMessage where
  | request (request : RelayFetchRequest)
  | metadata (metadata : RelayMetadata)
  | chunk (base64 : List Char)
  | pull
  | abort (error : String)
deriving DecidableEq

def isValidByteLength (value : Nat) : Bool :=
  value ≤ maxSafeInteger && value ≤ maxRelayResourceBytes

/-- `isRelayFetchRequest`, of a message with the shape of a request. -/
def isRelayFetchRequest (now : Nat) (request : RelayFetchRequest) : Bool :=
  0 < (jsTrim request.url).length && request.deadlineMs ≤ maxSafeInteger
    && request.deadlineMs ≤ now + snapshotNetworkTimeoutMs

/-- `isRelayMetadata`, of a message with the shape of metadata. -/
def isRelayMetadata (metadata : RelayMetadata) : Bool :=
  metadata.status ≤ 599 && 0 < (jsTrim metadata.url).length && isValidByteLength metadata.byteLength

/-- `isRelayChunk`, of a message with the shape of a chunk. -/
def isRelayChunk (base64 : List Char) : Bool :=
  0 < base64.length && base64.length ≤ maxRelayChunkBase64Length

/-- `isRelayAbort`, of a message with the shape of an abort. -/
def isRelayAbort (error : String) : Bool := error ≠ ""

def errorMessage (message : String) : String :=
  if message = "" then "Unknown relay fetch error" else message

def timeoutError : String :=
  "Relay fetch timed out after " ++ toString snapshotNetworkTimeoutMs ++ " ms"

/-- What `atob` says of a text it cannot read. -/
def atobError : String := "The string to be decoded is not correctly encoded."

/-- `encodeBase64`, by batches of bytes that become one text. -/
def encodeBase64 (bytes : Bytes) : List Char := Base64.btoa
    ((List.range (pieceCount 0x8000 bytes)).map (piece 0x8000 bytes)).flatten

/-- `decodeBase64`. -/
def decodeBase64 (base64 : List Char) : Option Bytes := Base64.atob base64

/-! ### The port -/

structure Channel where
  sent : List PortMessage
  delivered : Nat
  /-- The sending end is closed; the other end can be told. -/
  closed : Bool
  /-- What is under way or posted later never arrives. -/
  lost : Bool

def Channel.opened : Channel := ⟨[], 0, false, false⟩

def Channel.inFlight (channel : Channel) : List PortMessage :=
  if channel.lost then [] else channel.sent.drop channel.delivered

def Channel.next (channel : Channel) : Option PortMessage := channel.inFlight.head?

def Channel.post (channel : Channel) (message : PortMessage) : Channel :=
  { channel with sent := channel.sent ++ [message] }

def Channel.close (channel : Channel) : Channel := { channel with closed := true }

def Channel.deliver (channel : Channel) : Channel :=
  { channel with delivered := channel.delivered + 1 }

def Channel.lose (channel : Channel) : Channel := { channel with lost := true }

/-- A message or an abort cannot be posted, or there is no memory. -/
structure Faults where
  postError : Option String
  abortThrows : Bool
  allocationError : Option String

def disconnectedPortError : String := "Attempting to use a disconnected port object"

/-! ### The content side -/

/-- `SingleFileResponse`, with the record its `get` reads. -/
structure SingleFileResponse where
  status : Nat
  url : String
  headers : Record
  body : Bytes
deriving DecidableEq

/-- `headers.get`. -/
def SingleFileResponse.get (toLowerCase : String → String) (response : SingleFileResponse)
    (name : String) : Property :=
  Record.read response.headers (toLowerCase name)

structure Content where
  url : String
  metadata : Option RelayMetadata
  body : Option Bytes
  receivedBytes : Nat
  settled : Bool
  /-- The timeout of `relayFetch` is set. -/
  timer : Bool
  connected : Bool
  outgoing : Channel
  /-- Each time the promise of `relayFetch` was resolved or rejected. -/
  settlements : List (Except String SingleFileResponse)

namespace Content

def disconnectedMessage (content : Content) : String :=
  "Relay fetch disconnected before completion: " ++ content.url

def settle (content : Content) (result : Except String SingleFileResponse) : Content :=
  { content with settlements := content.settlements ++ [result] }

def post (content : Content) (message : PortMessage) (throws : Bool) : Option Content :=
  if throws || !content.connected then none
  else some { content with outgoing := content.outgoing.post message }

/-- `port.disconnect()`. -/
def disconnect (content : Content) : Content :=
  { content with connected := false, outgoing := content.outgoing.close }

def fail (content : Content) (error : String) (notifyWorker : Bool) (faults : Faults) : Content :=
  if content.settled then content
  else
    let marked := { content with settled := true, body := none }
    let notified :=
      if notifyWorker then (marked.post (.abort error) faults.abortThrows).getD marked else marked
    (disconnect { notified with timer := false }).settle (.error error)

def pull (content : Content) (faults : Faults) : Content :=
  match content.post .pull faults.postError.isSome with
  | some posted => posted
  | none => content.fail content.disconnectedMessage false faults

/-- `body.set(chunk, offset)`. -/
def setBytes (body chunk : Bytes) (offset : Nat) : Bytes :=
  body.take offset ++ chunk ++ body.drop (offset + chunk.length)

def onChunk (content : Content) (metadata : RelayMetadata) (base64 : List Char)
    (faults : Faults) : Content :=
  if !isRelayChunk base64 then content.fail "Relay fetch received an invalid chunk" true faults
  else
    match decodeBase64 base64 with
    | none =>
      content.fail ("Relay fetch could not decode a chunk: " ++ errorMessage atobError) true faults
    | some chunk =>
      if relayChunkBytes < chunk.length
          ∨ metadata.byteLength < content.receivedBytes + chunk.length then
        content.fail "Relay fetch received an invalid chunk" true faults
      else
        pull { content with
            body := content.body.map fun body => setBytes body chunk content.receivedBytes
            receivedBytes := content.receivedBytes + chunk.length }
          faults

def onMetadata (content : Content) (metadata : RelayMetadata) (faults : Faults) : Content :=
  if !isRelayMetadata metadata then
    content.fail "Relay fetch received invalid metadata" true faults
  else
    let known := { content with metadata := some metadata }
    match faults.allocationError with
    | some error =>
      known.fail ("Relay fetch could not process a port message: " ++ errorMessage error) true
        faults
    | none => pull { known with body := some (List.replicate metadata.byteLength 0) } faults

/-- `onMessage` of the content side. -/
def onMessage (content : Content) (message : PortMessage) (faults : Faults) : Content :=
  if content.settled then content
  else
    match message, content.metadata with
    | .abort error, _ =>
      if isRelayAbort error then content.fail error false faults
      else content.fail "Relay fetch received an invalid abort" true faults
    | .metadata metadata, none => content.onMetadata metadata faults
    | .chunk _, none => content.fail "Relay fetch received a chunk before metadata" true faults
    | .metadata _, some _ => content.fail "Relay fetch received invalid metadata" true faults
    | .chunk base64, some metadata => content.onChunk metadata base64 faults
    | .request _, _ | .pull, _ =>
      content.fail "Relay fetch received an unexpected message" true faults

/-- `onDisconnect` of the content side: what arrived in whole is resolved with. -/
def onDisconnect (content : Content) : Content :=
  if content.settled then content
  else
    let ended := { content with timer := false, settled := true, body := none }
    match content.metadata, content.body with
    | some metadata, some body =>
      if content.receivedBytes = metadata.byteLength then
        ended.settle (.ok ⟨metadata.status, metadata.url, metadata.headers, body⟩)
      else ended.settle (.error content.disconnectedMessage)
    | _, _ => ended.settle (.error content.disconnectedMessage)

/-- The timeout of `relayFetch`: the race is lost and the port closed. -/
def onTimeout (content : Content) : Content :=
  (disconnect { content with timer := false }).settle (.error timeoutError)

/-- `relayFetch` once the port is open: the request is posted. -/
def start (url : String) (headers : Option Record) (deadlineMs : Nat) (faults : Faults) :
    Content :=
  let content : Content := ⟨url, none, none, 0, false, true, true, Channel.opened, []⟩
  match content.post (.request ⟨url, headers, deadlineMs⟩) faults.postError.isSome with
  | some posted => posted
  | none => content.fail content.disconnectedMessage false faults

end Content

/-! ### The worker side -/

structure Response where
  status : Nat
  url : String
  headers : List (String × String)
  body : Bytes

structure Worker where
  bytes : Option Bytes
  offset : Nat
  requestReceived : Bool
  active : Bool
  timer : Bool
  /-- `fetchResource` waits for the response or its body. -/
  fetching : Bool
  connected : Bool
  outgoing : Channel
  /-- What the fetch has given. -/
  response : Option Response

namespace Worker

def start : Worker := ⟨none, 0, false, true, false, false, true, Channel.opened, none⟩

def cleanup (worker : Worker) : Worker :=
  if worker.active then { worker with active := false, timer := false, bytes := none } else worker

def post (worker : Worker) (message : PortMessage) (throws : Bool) : Option Worker :=
  if throws || !worker.connected then none
  else some { worker with outgoing := worker.outgoing.post message }

def disconnect (worker : Worker) : Worker :=
  { worker.cleanup with connected := false, outgoing := worker.outgoing.close }

def reportError (worker : Worker) (error : String) (faults : Faults) : Worker :=
  if worker.active then
    ((worker.post (.abort (errorMessage error)) faults.abortThrows).getD worker).cleanup
  else worker

def postOrReport (worker : Worker) (message : PortMessage) (faults : Faults) : Worker :=
  match worker.post message faults.postError.isSome with
  | some posted => posted
  | none => worker.reportError (faults.postError.getD disconnectedPortError) faults

def headerRecord (toLowerCase : String → String) (headers : List (String × String)) : Record :=
  headers.foldl (fun record header => Record.assign record (toLowerCase header.1) header.2) []

def metadataOf (toLowerCase : String → String) (response : Response) : RelayMetadata :=
  ⟨response.status, response.url, headerRecord toLowerCase response.headers, response.body.length⟩

/-- `fetchResource` once the body is there. -/
def onResponse (toLowerCase : String → String) (worker : Worker) (response : Response)
    (faults : Faults) : Worker :=
  let fetched := { worker with fetching := false, response := some response }
  if !worker.active then fetched
  else if !isValidByteLength response.body.length then
    fetched.reportError "Relay fetch response is too large" faults
  else
    let ready := { fetched with bytes := some response.body }
    if !isRelayMetadata (metadataOf toLowerCase response) then
      ready.reportError "Relay fetch received invalid response metadata" faults
    else ready.postOrReport (.metadata (metadataOf toLowerCase response)) faults

/-- `fetchResource` when the fetch fails. -/
def onFetchError (worker : Worker) (error : String) (faults : Faults) : Worker :=
  reportError { worker with fetching := false } error faults

def sendNextChunk (worker : Worker) (faults : Faults) : Worker :=
  match worker.bytes with
  | none => worker.reportError "Relay fetch received a pull before metadata" faults
  | some bytes =>
    if worker.offset = bytes.length then worker.disconnect
    else
      let last := min (worker.offset + relayChunkBytes) bytes.length
      postOrReport { worker with offset := last }
        (.chunk (encodeBase64 ((bytes.take last).drop worker.offset))) faults

def onRequest (worker : Worker) (now : Nat) (message : PortMessage) (faults : Faults) : Worker :=
  match message with
  | .request request =>
    if isRelayFetchRequest now request then
      { worker with requestReceived := true, timer := true, fetching := true }
    else worker.reportError "Relay fetch received an invalid request" faults
  | _ => worker.reportError "Relay fetch received an invalid request" faults

/-- `onMessage` of the worker side. -/
def onMessage (worker : Worker) (now : Nat) (message : PortMessage) (faults : Faults) : Worker :=
  if !worker.active then worker
  else if !worker.requestReceived then worker.onRequest now message faults
  else
    match message with
    | .abort error =>
      if isRelayAbort error then worker.disconnect
      else worker.reportError "Relay fetch received an invalid abort" faults
    | .pull => worker.sendNextChunk faults
    | .request _ | .metadata _ | .chunk _ =>
      worker.reportError "Relay fetch received an unexpected worker message" faults

def onTimeout (worker : Worker) (faults : Faults) : Worker :=
  reportError { worker with timer := false } timeoutError faults

def stop (worker : Worker) : Worker := { worker with
    active := false, timer := false, fetching := false, bytes := none, connected := false
    outgoing := worker.outgoing.close }

end Worker

/-! ### Both ends -/

structure Exchange where
  content : Content
  worker : Worker

def opened (url : String) (headers : Option Record) (deadlineMs : Nat) (faults : Faults) :
    Exchange :=
  ⟨Content.start url headers deadlineMs faults, Worker.start⟩

inductive Step where
  /-- A direction delivers its next message. -/
  | deliverToWorker (now : Nat) (faults : Faults)
  | deliverToContent (faults : Faults)
  /-- An end is told that the port is disconnected. -/
  | disconnectWorker
  | disconnectContent
  | contentTimeout
  | workerTimeout (faults : Faults)
  | fetchResolves (response : Response) (faults : Faults)
  | fetchRejects (error : String) (faults : Faults)
  /-- A direction stops delivering. -/
  | loseToWorker
  | loseToContent
  /-- The browser closes an end of the port. -/
  | closeContentEnd
  | closeWorkerEnd
  /-- The browser stops the worker, with its timer and its fetch. -/
  | stopWorker

def step (toLowerCase : String → String) (exchange : Exchange) : Step → Option Exchange
  | .deliverToWorker now faults =>
    let content := exchange.content
    let worker := exchange.worker
    match content.outgoing.next with
    | none => none
    | some message =>
      if worker.connected then
        some ⟨{ content with outgoing := content.outgoing.deliver },
          worker.onMessage now message faults⟩
      else none
  | .deliverToContent faults =>
    let content := exchange.content
    let worker := exchange.worker
    match worker.outgoing.next with
    | none => none
    | some message =>
      if content.connected then
        some ⟨content.onMessage message faults, { worker with outgoing := worker.outgoing.deliver }⟩
      else none
  | .disconnectWorker =>
    if exchange.content.outgoing.closed && exchange.worker.connected then
      some { exchange with worker := { exchange.worker.cleanup with connected := false } }
    else none
  | .disconnectContent =>
    if exchange.worker.outgoing.closed && exchange.content.connected then
      some { exchange with content := { exchange.content.onDisconnect with connected := false } }
    else none
  | .contentTimeout =>
    if exchange.content.timer then
      some { exchange with content := exchange.content.onTimeout }
    else none
  | .workerTimeout faults =>
    if exchange.worker.timer then
      some { exchange with worker := exchange.worker.onTimeout faults }
    else none
  | .fetchResolves response faults =>
    if exchange.worker.fetching then
      some { exchange with worker := exchange.worker.onResponse toLowerCase response faults }
    else none
  | .fetchRejects error faults =>
    if exchange.worker.fetching then
      some { exchange with worker := exchange.worker.onFetchError error faults }
    else none
  | .loseToWorker =>
    let content := exchange.content
    some { exchange with content := { content with outgoing := content.outgoing.lose } }
  | .loseToContent =>
    let worker := exchange.worker
    some { exchange with worker := { worker with outgoing := worker.outgoing.lose } }
  | .closeContentEnd =>
    let content := exchange.content
    some { exchange with content := { content with outgoing := content.outgoing.close } }
  | .closeWorkerEnd =>
    let worker := exchange.worker
    some { exchange with worker := { worker with outgoing := worker.outgoing.close } }
  | .stopWorker => some { exchange with worker := exchange.worker.stop }

end Clepsydra.Capture.Relay
