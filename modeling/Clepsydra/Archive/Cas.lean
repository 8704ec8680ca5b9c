import Clepsydra.Library.Faulty
import Clepsydra.Library.Table
import Clepsydra.Vault.Canonical

/-!
Owns: the content-addressed blob store, and the five operations that change it, step by step.

Does not own: SHA-256, the parameter `hashBytes`. The exclusive lock serialises the operations.
-/

namespace Clepsydra.Archive

open Library Library.Faulty Vault

abbrev Bytes := List UInt8

/-! ### State -/

/-- A row of `blobs`. -/
structure BlobRow where
  hash : String
  size : Nat
  contentType : String
  createdAt : String
  refCount : Int

/-- What a reader of the run counts: references taken by calls that returned, and released ones. -/
inductive Event where
  | stored (data : Bytes)
  | incremented (hash : String)
  | released (hash : String)
deriving DecidableEq

/-- The store. `log` is not part of the program: it records, newest first, the references taken
and released. -/
structure Store where
  blobs : Table String BlobRow BlobRow.hash
  files : String → Option Bytes
  releases : List Uuid
  log : List Event

def Store.empty : Store := ⟨Table.empty, fun _ => none, [], []⟩

inductive CasError where
  | invalidHash (message : String)
  | missingBlob (hash : String)
  | noReference (hash : String) (refCount : Int)
  | backingBlob (hash : String)
  | referenceChanged (hash : String)
  | io
  | database

/-- What a failed write leaves in the blob file: the bytes so far, or nothing if it was not opened. -/
abbrev Leftover := Option Bytes

abbrev Cas (α : Type) := Program Leftover Store CasError α

/-! ### Hashes -/

def isLowercaseHex (character : Char) : Bool :=
  ('0' ≤ character && character ≤ '9') || ('a' ≤ character && character ≤ 'f')

/-- `validate_hash`: `sha256:` and 64 lowercase hexadecimal characters. -/
def validateHash (hash : String) : Bool :=
  match stripStart "sha256:" hash with
  | some hex => hex.toList.length == 64 && hex.toList.all isLowercaseHex
  | none => false

def Store.blobFile (store : Store) (hash : String) : Option Bytes :=
  if validateHash hash then store.files hash else none

/-! ### Steps -/

def addReferences (count : Int) (row : BlobRow) : BlobRow :=
  { row with refCount := row.refCount + count }

/-- `UPDATE blobs SET ref_count = ref_count + count WHERE hash = ?`. -/
def Store.addRefs (store : Store) (hash : String) (count : Int) : Store :=
  { store with blobs := store.blobs.modify hash (addReferences count) fun _ => rfl }

def statement {α : Type} (failure : CasError) (perform : Store → Except CasError α × Store) :
    Cas α :=
  .step perform fun _ store => (failure, store)

def acquireExclusiveLock : Cas Unit := statement .io fun store => (.ok (), store)

def requireValid (hash : String) : Cas Unit :=
  if validateHash hash then .done () else .fail (.invalidHash hash)

/-- `INSERT OR IGNORE INTO blobs …`; returns whether a row was inserted. -/
def insertRow (row : BlobRow) : Cas Bool := statement .database fun store =>
    (.ok (store.blobs.get row.hash).isNone, { store with blobs := store.blobs.insertOrIgnore row })

/-- `UPDATE blobs SET ref_count = ref_count + 1 WHERE hash = ?`. -/
def bumpRow (hash : String) : Cas Unit :=
  statement .database fun store => (.ok (), store.addRefs hash 1)

/-- `DELETE FROM blobs WHERE hash = ?`. -/
def deleteRow (hash : String) : Cas Unit :=
  statement .database fun store => (.ok (), { store with blobs := store.blobs.erase hash })

def createParent : Cas Unit := statement .io fun store => (.ok (), store)

def Store.write (store : Store) (hash : String) (content : Option Bytes) : Store :=
  { store with files := Function.update store.files hash content }

/-- `fs::write`, which may fail halfway. -/
def writeFile (hash : String) (data : Bytes) : Cas Unit :=
  .step (fun store => (.ok (), store.write hash (some data))) fun leftover store =>
      (.io, match leftover with
        | some bytes => store.write hash (some bytes)
        | none => store)

/-- `fs::remove_file` of an existing blob file. -/
def removeFile (hash : String) : Cas Unit :=
  statement .io fun store => (.ok (), store.write hash none)

/-! ### Operations -/

variable (hashBytes : Bytes → String)

/-- `ContentStore::store`. -/
def store (data : Bytes) (contentType now : String) : Cas String := do
  acquireExclusiveLock
  let hash := hashBytes data
  let inserted ← insertRow ⟨hash, data.length, contentType, now, 1⟩
  if inserted then
    requireValid hash
    createParent
    match ← (writeFile hash data).attempt with
    | .ok _ => pure hash
    | .error failure =>
      deleteRow hash
      .fail failure
  else
    bumpRow hash
    pure hash

/-- `ContentStore::increment_ref`; the statement may match no row. -/
def incrementRef (hash : String) : Cas Unit := do
  acquireExclusiveLock
  requireValid hash
  bumpRow hash

/-- `ContentStore::decrement_ref`; the statement may match no row and may go below zero. -/
def decrementRef (hash : String) : Cas Unit := do
  acquireExclusiveLock
  requireValid hash
  statement .database fun store =>
    (.ok (), { store.addRefs hash (-1) with log := .released hash :: store.log })

/-- The hashes `gc` selects: `ref_count <= 0 AND created_at < cutoff`. -/
def Store.garbage (store : Store) (cutoff : String) : List String :=
  (store.blobs.rows.filter fun row => row.refCount ≤ 0 ∧ row.createdAt < cutoff).map (·.hash)

/-- `ContentStore::gc`. The file goes before the row. -/
def gc (cutoff : String) : Cas Unit := do
  acquireExclusiveLock
  let hashes ← statement .database fun store => (.ok (store.garbage cutoff), store)
  Program.forEach (fun hash => do
      requireValid hash
      if (← Program.observe fun store => store.files hash).isSome then removeFile hash
      deleteRow hash)
    hashes

/-- `prevalidate_rubbish_archive_ref`. -/
def prevalidate (hash : String) (store : Store) : Except CasError Unit :=
  if validateHash hash then
    match store.blobs.get hash with
    | none => .error (.missingBlob hash)
    | some row =>
      if row.refCount ≤ 0 then .error (.noReference hash row.refCount)
      else
        match store.files hash with
        | some content =>
          if content.length = row.size then .ok () else .error (.backingBlob hash)
        | none => .error (.backingBlob hash)
  else
    .error (.invalidHash hash)

def releaseAll : List String → Store → Except CasError Store
  | [], store => .ok store
  | hash :: hashes, store =>
    match store.blobs.get hash with
    | some row =>
      if 0 < row.refCount then
        releaseAll hashes { store.addRefs hash (-1) with log := .released hash :: store.log }
      else .error (.referenceChanged hash)
    | none => .error (.referenceChanged hash)

/-- `ContentStore::release_rubbish_archive_refs`; returns whether they were released now. -/
def releaseRubbishArchiveRefs (item : Uuid) (hashes : List String) : Cas Bool := do
  acquireExclusiveLock
  if (← Program.observe fun store => store.releases.contains item) then
    pure false
  else
    Program.forEach
      (fun hash => statement .database fun store => (prevalidate hash store, store)) hashes
    statement .database fun store =>
      match releaseAll hashes store with
      | .ok after => (.ok true, { after with releases := item :: after.releases })
      | .error failure => (.error failure, store)

/-- `ContentStore::retrieve`. -/
def retrieve (hash : String) (store : Store) : Except CasError (Bytes × String) :=
  if validateHash hash then
    match store.blobs.get hash with
    | none => .error .database
    | some row =>
      match store.files hash with
      | some data => .ok (data, row.contentType)
      | none => .error .io
  else
    .error (.invalidHash hash)

/-! ### Runs -/

inductive Call where
  | store (data : Bytes) (contentType now : String)
  | incrementRef (hash : String)
  | decrementRef (hash : String)
  | release (item : Uuid) (hashes : List String)
  | gc (cutoff : String)

/-- Runs a call under a fault script and records the references it returned. -/
def perform (call : Call) (script : List (Fault Leftover)) (before : Store) : Store :=
  match call with
  | .store data contentType now =>
    let run := store hashBytes data contentType now script before
    match run.returned with
    | .ok _ => { run.state with log := .stored data :: run.state.log }
    | _ => run.state
  | .incrementRef hash =>
    let run := incrementRef hash script before
    match run.returned with
    | .ok _ => { run.state with log := .incremented hash :: run.state.log }
    | _ => run.state
  | .decrementRef hash => (decrementRef hash script before).state
  | .release item hashes => (releaseRubbishArchiveRefs item hashes script before).state
  | .gc cutoff => (gc cutoff script before).state

def performAll : List (Call × List (Fault Leftover)) → Store → Store
  | [], store => store
  | (call, script) :: calls, store => performAll calls (perform hashBytes call script store)

end Clepsydra.Archive
