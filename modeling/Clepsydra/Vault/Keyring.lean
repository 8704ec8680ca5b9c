import Clepsydra.Library.Faulty
import Clepsydra.Vault.AgeArmor
import Clepsydra.Vault.Canonical

/-!
Owns: the keyring of a vault: setup, change and reading, step by step, where a crash may stop one.

Proves: after any calls the keyring is as it was before the last one or as that one leaves it.
-/

namespace Clepsydra.Vault.Keyring

open Library Library.Faulty Library.Utf8

/-! ### Records -/

structure VaultKeyRecord where
  id : String
  recipient : String
  wrappedIdentityFile : Option String
deriving DecidableEq

structure VaultKeyring where
  version : Nat
  activeKeyId : String
  keys : List VaultKeyRecord
deriving DecidableEq

structure KeyringSnapshot where
  keyring : VaultKeyring
  wrappedIdentity : Option (List Char)
  revision : String
deriving DecidableEq

structure PublicationError where
  alreadyExists : Bool
  filesystemApplied : Bool
deriving DecidableEq

inductive KeyringError where
  | alreadyInitialized
  | notInitialized
  | revisionConflict (currentRevision : String)
  | invalidKeyId
  | invalidRecipient
  | invalidWrappedIdentity
  | invalidMetadata
  | io
  | publication (error : PublicationError)
deriving DecidableEq

/-- `keyring.toml`; a file that was not written by the code may be no metadata at all. -/
inductive MetadataFile where
  | written (keyring : VaultKeyring)
  | unreadable

/-- `.clepsydra/crypto`, with the file of each key's wrapped identity. -/
structure CryptoDir where
  created : Bool
  metadata : Option MetadataFile
  identities : String → Option (List Char)

def CryptoDir.empty : CryptoDir := ⟨false, none, fun _ => none⟩

def CryptoDir.create (disk : CryptoDir) : CryptoDir := { disk with created := true }

def CryptoDir.putKeyring (keyring : VaultKeyring) (disk : CryptoDir) : CryptoDir :=
  { disk with metadata := some (.written keyring) }

def CryptoDir.putIdentity (id : String) (file : Option (List Char)) (disk : CryptoDir) :
    CryptoDir :=
  { disk with identities := Function.update disk.identities id file }

/-! ### Checks -/

structure Crates where
  toToml : VaultKeyring → String
  blake3 : List UInt8 → String
  base64 : Armor.Base64Standard

def keyringVersion : Nat := 1

def ageRecipientDataChars : List Char := "qpzry9x8gf2tvdw0s3jn54khce6mua7l".toList

def identityFileName (keyId : String) : String := keyId ++ ".identity.age"

def validateKeyId (keyId : String) : Except KeyringError Unit :=
  if (Uuid.parse keyId).map Uuid.toText = some keyId then .ok () else .error .invalidKeyId

def validateRecipient (recipient : String) : Except KeyringError Unit :=
  if recipient.toList.length = 62 ∧ "age1".toList.isPrefixOf recipient.toList
      ∧ (recipient.toList.drop 4).all ageRecipientDataChars.contains then .ok ()
  else .error .invalidRecipient

variable (crates : Crates)

def validateArmor (armor : List Char) : Except KeyringError Unit :=
  match Armor.validateAgeArmor crates.base64 armor with
  | .ok () => .ok ()
  | .error _ => .error .invalidWrappedIdentity

def validateOptionalWrappedIdentity : Option (List Char) → Except KeyringError Unit
  | some armor =>
    if Armor.maxAgeArmorBytes < byteLen armor then .error .invalidWrappedIdentity
    else validateArmor crates armor
  | none => .ok ()

def validateRecord (record : VaultKeyRecord) : Except KeyringError Unit := do
  validateKeyId record.id
  validateRecipient record.recipient
  if record.wrappedIdentityFile.all (· = identityFileName record.id) then .ok ()
  else .error .invalidMetadata

def validateKeyring (keyring : VaultKeyring) : Except KeyringError Unit := do
  if keyring.version ≠ keyringVersion ∨ keyring.keys = [] then throw .invalidMetadata
  validateKeyId keyring.activeKeyId
  keyring.keys.forM validateRecord
  -- an id that is seen twice is an error at the second record
  if ¬(keyring.keys.map VaultKeyRecord.id).Nodup then throw .invalidMetadata
  if keyring.activeKeyId ∈ keyring.keys.map VaultKeyRecord.id then .ok ()
  else .error .invalidMetadata

def lengthBytes (length : Nat) : List UInt8 :=
  (List.range 8).map fun index => UInt8.ofNat (length / 256 ^ index)

def keyringRevision (metadata : List Char) (wrapped : Option (List Char)) : String :=
  crates.blake3 (asBytes "clepsydra-keyring-v1\x00".toList ++ lengthBytes (byteLen metadata)
    ++ asBytes metadata
    ++ match wrapped with
      | some armor => [1] ++ lengthBytes (byteLen armor) ++ asBytes armor
      | none => [0])

def revisionOf (keyring : VaultKeyring) (wrapped : Option (List Char)) : String :=
  keyringRevision crates (crates.toToml keyring).toList wrapped

/-! ### Reading -/

def readWrapped (disk : CryptoDir) (active : VaultKeyRecord) :
    Except KeyringError (Option (List Char)) :=
  if active.wrappedIdentityFile.isSome then
    match disk.identities active.id with
    | none => .error .invalidMetadata
    | some armor => (validateArmor crates armor).map fun _ => some armor
  else .ok none

/-- `load_keyring`, which does not change the disk. -/
def loadKeyring (disk : CryptoDir) : Except KeyringError (Option KeyringSnapshot) :=
  match disk.metadata with
  | none => .ok none
  | some .unreadable => .error .invalidMetadata
  | some (.written keyring) => do
      validateKeyring keyring
      match keyring.keys.find? fun record => record.id = keyring.activeKeyId with
      | none => .error .invalidMetadata
      | some active =>
        let wrapped ← readWrapped crates disk active
        .ok (some ⟨keyring, wrapped, revisionOf crates keyring wrapped⟩)

/-! ### Steps -/

abbrev Filing (α : Type) := Program Bool CryptoDir KeyringError α

def check {α : Type} : Except KeyringError α → Filing α
  | .ok value => .done value
  | .error failure => .fail failure

def call (change : CryptoDir → CryptoDir) : Filing Unit :=
  .step (fun disk => (.ok (), change disk)) fun _ disk => (.io, disk)

def setOwnerOnly : Filing Unit := call id

def unpublished (change : CryptoDir → CryptoDir) (applied : Bool) (disk : CryptoDir) :
    KeyringError × CryptoDir :=
  (.publication ⟨false, applied⟩, if applied then change disk else disk)

/-- `atomic_create_owner_only`: nothing is overwritten. -/
def atomicCreate (occupied : CryptoDir → Bool) (change : CryptoDir → CryptoDir) : Filing Unit :=
  .step (fun disk =>
      if occupied disk then (.error (.publication ⟨true, false⟩), disk) else (.ok (), change disk))
    (unpublished change)

/-- `atomic_replace`, which reads the permissions of what it replaces. -/
def atomicReplace (occupied : CryptoDir → Bool) (change : CryptoDir → CryptoDir) : Filing Unit :=
  .step (fun disk =>
      if occupied disk then (.ok (), change disk) else (.error (.publication ⟨false, false⟩), disk))
    (unpublished change)

def hasIdentity (id : String) (disk : CryptoDir) : Bool := (disk.identities id).isSome

def hasMetadata (disk : CryptoDir) : Bool := disk.metadata.isSome

/-- `remove_file`; that there is no such file is no failure to any caller. -/
def removeIdentity (id : String) : Filing Unit := call (CryptoDir.putIdentity id none)

def withdraw {α : Type} (remove : Bool) (id : String) (failure : KeyringError) : Filing α := do
  if remove then
    let _ ← Program.attempt (removeIdentity id)
    .fail failure
  else .fail failure

def createWrapped (keyId : String) : Option (List Char) → Filing Unit
  | some armor => do
      atomicCreate (hasIdentity keyId) (.putIdentity keyId (some armor))
      setOwnerOnly
  | none => .done ()

def createKeyring (keyring : VaultKeyring) (keyId : String) (wrapped : Option (List Char)) :
    Filing KeyringSnapshot := do
  match ← Program.attempt (atomicCreate hasMetadata (.putKeyring keyring)) with
  | .ok () => do
      setOwnerOnly
      .done ⟨keyring, wrapped, revisionOf crates keyring wrapped⟩
  | .error (.publication error) =>
    if error.alreadyExists then withdraw wrapped.isSome keyId .alreadyInitialized
    else withdraw (wrapped.isSome && !error.filesystemApplied) keyId (.publication error)
  | .error failure => .fail failure

/-- `setup_keyring`. -/
def setupKeyring (keyId recipient : String) (wrapped : Option (List Char)) :
    Filing KeyringSnapshot := do
  check (validateKeyId keyId)
  check (validateRecipient recipient)
  check (validateOptionalWrappedIdentity crates wrapped)
  .branch fun disk =>
    if hasMetadata disk then .fail .alreadyInitialized
    else do
      call CryptoDir.create
      setOwnerOnly
      createWrapped keyId wrapped
      createKeyring crates ⟨keyringVersion, keyId,
        [⟨keyId, recipient, wrapped.map fun _ => identityFileName keyId⟩]⟩ keyId wrapped

def VaultKeyring.setFile (keyring : VaultKeyring) (index : Nat) (file : Option String) :
    VaultKeyring :=
  { keyring with keys := keyring.keys.modify index fun record =>
      { record with wrappedIdentityFile := file } }

/-- The four cases of `rewrap_identity`, on the active record. -/
def rewrapRecord (keyring : VaultKeyring) (index : Nat) (record : VaultKeyRecord) :
    Option (List Char) → Filing Unit
  | some armor =>
    if record.wrappedIdentityFile.isSome then do
      atomicReplace (hasIdentity record.id) (.putIdentity record.id (some armor))
      setOwnerOnly
    else do
      atomicCreate (hasIdentity record.id) (.putIdentity record.id (some armor))
      setOwnerOnly
      let replaced ← Program.attempt (atomicReplace hasMetadata
        (.putKeyring (keyring.setFile index (some (identityFileName record.id)))))
      match replaced with
      | .ok () => setOwnerOnly
      | .error (.publication error) =>
        withdraw (!error.filesystemApplied) record.id (.publication error)
      | .error failure => .fail failure
  | none =>
    if record.wrappedIdentityFile.isSome then do
      atomicReplace hasMetadata (.putKeyring (keyring.setFile index none))
      setOwnerOnly
      removeIdentity record.id
    else .done ()

def loadInitialized : Filing KeyringSnapshot := do
  match ← Program.observe (loadKeyring crates) with
  | .ok (some snapshot) => .done snapshot
  | .ok none => .fail .notInitialized
  | .error failure => .fail failure

def rewrapActive (keyring : VaultKeyring) (wrapped : Option (List Char)) : Filing KeyringSnapshot :=
  match keyring.keys.findIdx? fun record => record.id = keyring.activeKeyId with
  | none => .fail .invalidMetadata
  | some index =>
    match keyring.keys[index]? with
    | none => .fail .invalidMetadata
    | some record => do
        rewrapRecord keyring index record wrapped
        loadInitialized crates

/-- `rewrap_identity`. -/
def rewrapIdentity (expectedRevision : String) (wrapped : Option (List Char)) :
    Filing KeyringSnapshot := do
  check (validateOptionalWrappedIdentity crates wrapped)
  let current ← loadInitialized crates
  if current.revision ≠ expectedRevision then .fail (.revisionConflict current.revision)
  else rewrapActive crates current.keyring wrapped

/-! ### What is on the disk -/

def keyringOf (id recipient : String) (file : Option String) : VaultKeyring :=
  ⟨keyringVersion, id, [⟨id, recipient, file⟩]⟩

structure Shows (disk : CryptoDir) (id recipient : String) (wrapped : Option (List Char)) :
    Prop where
  metadata : disk.metadata
    = some (.written (keyringOf id recipient (wrapped.map fun _ => identityFileName id)))
  isKeyId : validateKeyId id = .ok ()
  isRecipient : validateRecipient recipient = .ok ()
  isArmor : ∀ armor ∈ wrapped, disk.identities id = some armor ∧ validateArmor crates armor = .ok ()

def Sound (disk : CryptoDir) : Prop :=
  disk.metadata = none ∨ ∃ id recipient wrapped, Shows crates disk id recipient wrapped

def snapshotOf (id recipient : String) (wrapped : Option (List Char)) : KeyringSnapshot :=
  let keyring := keyringOf id recipient (wrapped.map fun _ => identityFileName id)
  ⟨keyring, wrapped, revisionOf crates keyring wrapped⟩

section Load

variable {crates} {disk : CryptoDir} {id recipient : String} {wrapped : Option (List Char)}

theorem Shows.load (shows : Shows crates disk id recipient wrapped) :
    loadKeyring crates disk = .ok (some (snapshotOf crates id recipient wrapped)) := by
  have valid : validateKeyring
      (keyringOf id recipient (wrapped.map fun _ => identityFileName id)) = .ok () := by
    cases wrapped <;> simp [validateKeyring, keyringOf, validateRecord, shows.isKeyId,
      shows.isRecipient, bind, Except.bind, pure, Except.pure]
  have read : readWrapped crates disk
      ⟨id, recipient, wrapped.map fun _ => identityFileName id⟩ = .ok wrapped := by
    cases wrapped with
    | none => rfl
    | some armor =>
      have ⟨isFile, isArmor⟩ := shows.isArmor armor rfl
      simp [readWrapped, isFile, isArmor, Except.map]
  rw [loadKeyring, shows.metadata]
  dsimp only
  rw [valid]
  simp [keyringOf, read, snapshotOf, bind, Except.bind]

theorem load_of_none (absent : disk.metadata = none) : loadKeyring crates disk = .ok none := by
  rw [loadKeyring, absent]

end Load

/-! ### Runs -/

/-- On one disk, unless a crash leaves one that is read as that or as the first. -/
def Ends (start : CryptoDir) (program : Filing KeyringSnapshot) (final : CryptoDir)
    (succeeds : Prop) : Prop :=
  ∀ permits : Fault Bool → Prop, (∀ detail, ¬permits (.fail detail)) →
    Triple permits (fun _ _ => True) (fun disk => disk = start) program
      (fun _ disk => succeeds ∧ disk = final) (fun _ disk => ¬succeeds ∧ disk = final)
      (fun disk => permits .crash ∧ Sound crates disk
        ∧ (loadKeyring crates disk = loadKeyring crates start
          ∨ loadKeyring crates disk = loadKeyring crates final))

section Steps

variable {α : Type} {permits : Fault Bool → Prop} {start final : CryptoDir}
  {ok : α → CryptoDir → Prop} {error : KeyringError → CryptoDir → Prop}
  {crashed : CryptoDir → Prop} {change : CryptoDir → CryptoDir}

def Leads (permits : Fault Bool → Prop) (start : CryptoDir) (program : Filing α)
    (ok : α → CryptoDir → Prop) (error : KeyringError → CryptoDir → Prop)
    (crashed : CryptoDir → Prop) : Prop :=
  Triple permits (fun _ _ => True) (fun disk => disk = start) program ok error
    (fun disk => permits .crash ∧ crashed disk)

theorem leads_then {β : Type} {first : Filing α} {next : α → Filing β} {between : CryptoDir}
    {ok : β → CryptoDir → Prop}
    (leading : Leads permits start first (fun _ disk => disk = between) error crashed)
    (trailing : ∀ value, Leads permits between (next value) ok error crashed) :
    Leads permits start (first >>= next) ok error crashed :=
  triple_andThen leading trailing

theorem leads_step {perform : CryptoDir → Except KeyringError Unit × CryptoDir}
    {broken : Bool → CryptoDir → KeyringError × CryptoDir} {next : CryptoDir}
    (noFail : ∀ detail, ¬permits (.fail detail)) (performed : perform start = (.ok (), next))
    (stops : crashed start) :
    Leads permits start (Program.step perform broken) (fun _ disk => disk = next) error
      crashed := by
  apply triple_step
  · rintro disk rfl
    rw [performed]
    exact ⟨trivial, fun _ _ => rfl, nofun⟩
  · exact fun detail _ permitted => absurd permitted (noFail detail)
  · rintro disk permitted rfl
    exact ⟨permitted, stops⟩

theorem leads_call (noFail : ∀ detail, ¬permits (.fail detail)) (stops : crashed start) :
    Leads permits start (call change) (fun _ disk => disk = change start) error crashed := by
  have performed : (fun disk : CryptoDir => ((.ok () : Except KeyringError Unit), change disk))
      start = (.ok (), change start) := rfl
  exact leads_step noFail performed stops

theorem leads_create {occupied : CryptoDir → Bool} (noFail : ∀ detail, ¬permits (.fail detail))
    (stops : crashed start) (free : occupied start = false) :
    Leads permits start (atomicCreate occupied change) (fun _ disk => disk = change start) error
      crashed :=
  leads_step noFail (if_neg (by rw [free]; exact Bool.false_ne_true)) stops

theorem leads_replace {occupied : CryptoDir → Bool} (noFail : ∀ detail, ¬permits (.fail detail))
    (stops : crashed start) (taken : occupied start = true) :
    Leads permits start (atomicReplace occupied change) (fun _ disk => disk = change start) error
      crashed :=
  leads_step noFail (if_pos taken) stops

/-- What is there is not created again. -/
theorem leads_create_occupied {occupied : CryptoDir → Bool}
    (noFail : ∀ detail, ¬permits (.fail detail)) (stops : crashed start)
    (taken : occupied start = true) {ok : Unit → CryptoDir → Prop}
    (fails : error (.publication ⟨true, false⟩) start) :
    Leads permits start (atomicCreate occupied change) ok error crashed := by
  apply triple_step
  · rintro disk rfl
    rw [if_pos taken]
    exact ⟨trivial, nofun, fun failure isFailure => Except.error.inj isFailure ▸ fails⟩
  · exact fun detail _ permitted => absurd permitted (noFail detail)
  · rintro disk permitted rfl
    exact ⟨permitted, stops⟩

theorem leads_attempt {first : Filing Unit} {next : Except KeyringError Unit → Filing α}
    {between : CryptoDir}
    (leading : Leads permits start first (fun _ disk => disk = between) (fun _ _ => False) crashed)
    (trailing : Leads permits between (next (.ok ())) ok error crashed) :
    Leads permits start (Program.attempt first >>= next) ok error crashed := by
  apply triple_andThen (triple_attempt leading)
  rintro (_ | _)
  · exact fun script permitted disk impossible => impossible.elim
  · exact trailing

theorem leads_refused {β : Type} {first : Filing α} {next : α → Filing β}
    {ok : β → CryptoDir → Prop}
    (refused : Leads permits start first (fun _ _ => False) error crashed) :
    Leads permits start (first >>= next) ok error crashed :=
  triple_andThen refused fun _ _ _ _ impossible => impossible.elim

theorem leads_ok {program : Filing α} {ok' : α → CryptoDir → Prop}
    (leads : Leads permits start program ok error crashed)
    (succeeds : ∀ value disk, ok value disk → ok' value disk) :
    Leads permits start program ok' error crashed :=
  leads.mono (fun _ isStart => isStart) succeeds (fun _ _ fails => fails) fun _ stops => stops

theorem leads_done {value : α} (post : ok value start) :
    Leads permits start (Program.done value) ok error crashed :=
  triple_done fun _ isStart => isStart ▸ post

theorem leads_fail {failure : KeyringError} (post : error failure start) :
    Leads permits start (Program.fail failure) ok error crashed :=
  triple_fail fun _ isStart => isStart ▸ post

end Steps

section Calls

variable {crates} {start final : CryptoDir} {id recipient : String} {wrapped : Option (List Char)}

theorem ends_fail {failure : KeyringError} : Ends crates start (.fail failure) start False :=
  fun _ _ => leads_fail ⟨not_false, rfl⟩

theorem sound_of_none {disk : CryptoDir} (absent : disk.metadata = none)
    (startAbsent : start.metadata = none) : Sound crates disk
      ∧ (loadKeyring crates disk = loadKeyring crates start
        ∨ loadKeyring crates disk = loadKeyring crates final) :=
  ⟨.inl absent, .inl (by rw [load_of_none absent, load_of_none startAbsent])⟩

theorem check_ok {α β : Type} (value : α) (next : α → Filing β) :
    (check (.ok value) >>= next) = next value := rfl

theorem check_error {α β : Type} (failure : KeyringError) (next : α → Filing β) :
    (check (.error failure) >>= next) = .fail failure := rfl

theorem isArmor_of_valid (valid : validateOptionalWrappedIdentity crates wrapped = .ok ()) :
    ∀ armor ∈ wrapped, validateArmor crates armor = .ok () := by
  intro armor isWrapped
  rw [Option.mem_def.1 isWrapped, validateOptionalWrappedIdentity] at valid
  split_ifs at valid
  exact valid

theorem isArmor_putIdentity {disk : CryptoDir} {armor : List Char}
    (valid : validateArmor crates armor = .ok ()) : ∀ other ∈ some armor,
      (disk.putIdentity id (some armor)).identities id = some other
        ∧ validateArmor crates other = .ok () := by
  intro other isArmor
  rw [← Option.some.inj isArmor]
  exact ⟨Function.update_self _ _ _, valid⟩

/-- A vault without a keyring gets one, unless the file of the new identity is there already. -/
theorem ends_install {keyId : String} (isKeyId : validateKeyId keyId = .ok ())
    (isRecipient : validateRecipient recipient = .ok ())
    (isWrapped : validateOptionalWrappedIdentity crates wrapped = .ok ())
    (absent : start.metadata = none) : ∃ final succeeds, Sound crates final ∧ Ends crates start (do
        call CryptoDir.create
        setOwnerOnly
        createWrapped keyId wrapped
        createKeyring crates ⟨keyringVersion, keyId,
          [⟨keyId, recipient, wrapped.map fun _ => identityFileName keyId⟩]⟩ keyId wrapped)
        final succeeds := by
  have stops : ∀ {disk final : CryptoDir}, disk.metadata = none → Sound crates disk
      ∧ (loadKeyring crates disk = loadKeyring crates start
        ∨ loadKeyring crates disk = loadKeyring crates final) := fun none =>
    sound_of_none none absent
  have created : start.create.metadata = none := absent
  cases wrapped with
  | none =>
    have shows : Shows crates
        (start.create.putKeyring (keyringOf keyId recipient none)) keyId recipient none :=
      ⟨rfl, isKeyId, isRecipient, nofun⟩
    refine ⟨_, True, .inr ⟨_, _, _, shows⟩, fun permits noFail => ?_⟩
    apply leads_then (leads_call noFail (stops absent)) fun _ => ?_
    apply leads_then (leads_call noFail (stops created)) fun _ => ?_
    apply leads_attempt (leads_create noFail (stops created) (congrArg Option.isSome created))
    apply leads_then (leads_call noFail ⟨.inr ⟨_, _, _, shows⟩, .inr rfl⟩) fun _ => ?_
    exact leads_done ⟨trivial, rfl⟩
  | some armor =>
    by_cases occupied : hasIdentity keyId start = true
    · refine ⟨start.create, False, .inl absent, fun permits noFail => ?_⟩
      apply leads_then (leads_call noFail (stops absent)) fun _ => ?_
      apply leads_then (leads_call noFail (stops created)) fun _ => ?_
      have refused : Leads permits start.create
          (atomicCreate (hasIdentity keyId) (.putIdentity keyId (some armor)))
          (fun _ _ => False) (fun _ disk => ¬False ∧ disk = start.create)
          (fun disk => Sound crates disk ∧ (loadKeyring crates disk = loadKeyring crates start
            ∨ loadKeyring crates disk = loadKeyring crates start.create)) :=
        @leads_create_occupied _ start.create _ _ _ _ noFail (stops created) occupied _
          ⟨not_false, rfl⟩
      exact leads_refused (leads_refused refused)
    · have free : hasIdentity keyId start.create = false := (Bool.not_eq_true _).mp occupied
      have placed : (start.create.putIdentity keyId (some armor)).metadata = none := absent
      have shows : Shows crates ((start.create.putIdentity keyId (some armor)).putKeyring
          (keyringOf keyId recipient (some (identityFileName keyId)))) keyId recipient
          (some armor) :=
        ⟨rfl, isKeyId, isRecipient, @isArmor_putIdentity crates keyId start.create armor
            (isArmor_of_valid isWrapped armor rfl)⟩
      refine ⟨_, True, .inr ⟨_, _, _, shows⟩, fun permits noFail => ?_⟩
      apply leads_then (leads_call noFail (stops absent)) fun _ => ?_
      apply leads_then (leads_call noFail (stops created)) fun _ => ?_
      apply leads_then
      · exact leads_then (leads_create noFail (stops created) free) fun _ =>
          leads_call noFail (stops placed)
      · intro _
        apply leads_attempt (leads_create noFail (stops placed) (congrArg Option.isSome placed))
        apply leads_then (leads_call noFail ⟨.inr ⟨_, _, _, shows⟩, .inr rfl⟩) fun _ => ?_
        exact leads_done ⟨trivial, rfl⟩

theorem ends_setup (sound : Sound crates start) (keyId : String) :
    ∃ final succeeds, Sound crates final
      ∧ Ends crates start (setupKeyring crates keyId recipient wrapped) final succeeds := by
  rw [setupKeyring]
  cases isKeyId : validateKeyId keyId with
  | error failure => exact ⟨start, False, sound, ends_fail⟩
  | ok _ =>
  cases isRecipient : validateRecipient recipient with
  | error failure => exact ⟨start, False, sound, ends_fail⟩
  | ok _ =>
  cases isWrapped : validateOptionalWrappedIdentity crates wrapped with
  | error failure => exact ⟨start, False, sound, ends_fail⟩
  | ok _ =>
  simp only [check_ok]
  cases present : start.metadata with
  | some file =>
    refine ⟨start, False, sound, fun permits noFail => triple_branch ?_⟩
    rintro disk rfl
    have initialized : hasMetadata disk = true := congrArg Option.isSome present
    rw [if_pos initialized]
    exact leads_fail ⟨not_false, rfl⟩
  | none =>
    have ⟨final, succeeds, isSound, ends⟩ := ends_install isKeyId isRecipient isWrapped present
    refine ⟨final, succeeds, isSound, fun permits noFail => triple_branch ?_⟩
    rintro disk rfl
    have uninitialized : ¬hasMetadata disk = true := by
      rw [hasMetadata, present]
      exact Bool.false_ne_true
    rw [if_neg uninitialized]
    exact ends permits noFail

theorem leads_loaded {permits : Fault Bool → Prop} {error : KeyringError → CryptoDir → Prop}
    {crashed : CryptoDir → Prop} (shows : Shows crates start id recipient wrapped) :
    Leads permits start (loadInitialized crates)
      (fun snapshot disk => snapshot = snapshotOf crates id recipient wrapped ∧ disk = start) error
      crashed := by
  intro script permitted disk isStart
  have same : loadInitialized crates script disk
      = Program.done (snapshotOf crates id recipient wrapped) script disk := by
    simp [isStart, loadInitialized, Program.andThen, Program.observe, shows.load, Program.done]
  rw [same]
  exact ⟨⟨rfl, isStart⟩, fun _ member => absurd member List.not_mem_nil, permitted⟩

theorem leads_load {permits : Fault Bool → Prop} {α : Type} {next : KeyringSnapshot → Filing α}
    {ok : α → CryptoDir → Prop} {error : KeyringError → CryptoDir → Prop}
    {crashed : CryptoDir → Prop}
    (shows : Shows crates start id recipient wrapped)
    (later : Leads permits start (next (snapshotOf crates id recipient wrapped)) ok error crashed) :
    Leads permits start (loadInitialized crates >>= next) ok error crashed := by
  apply triple_andThen (leads_loaded shows)
  rintro snapshot script permitted disk ⟨rfl, isStart⟩
  exact later script permitted disk isStart

theorem rewrapActive_single (file : Option String) (new : Option (List Char)) :
    rewrapActive crates (keyringOf id recipient file) new
      = (rewrapRecord (keyringOf id recipient file) 0 ⟨id, recipient, file⟩ new
        >>= fun _ => loadInitialized crates) := by
  simp [rewrapActive, keyringOf]

/-- A call with the current revision, by what it does to the active record. -/
theorem ends_of_record {new : Option (List Char)} {final : CryptoDir} {succeeds : Prop}
    {shown : Option (List Char)} (shows : Shows crates start id recipient wrapped)
    (valid : validateOptionalWrappedIdentity crates new = .ok ())
    (showsFinal : Shows crates final id recipient shown)
    (each : ∀ permits : Fault Bool → Prop, (∀ detail, ¬permits (.fail detail)) → Leads permits start
        (rewrapRecord (keyringOf id recipient (wrapped.map fun _ => identityFileName id)) 0
          ⟨id, recipient, wrapped.map fun _ => identityFileName id⟩ new)
        (fun _ disk => succeeds ∧ disk = final) (fun _ disk => ¬succeeds ∧ disk = final)
        (fun disk => Shows crates disk id recipient wrapped
          ∨ Shows crates disk id recipient shown)) :
    Ends crates start
      (rewrapIdentity crates (snapshotOf crates id recipient wrapped).revision new) final
      succeeds := by
  intro permits noFail
  rw [rewrapIdentity, valid, check_ok]
  apply leads_load shows
  rw [if_neg (not_not_intro rfl)]
  show Leads permits start (rewrapActive crates (keyringOf id recipient _) new) _ _ _
  rw [rewrapActive_single]
  have known : ∀ disk, permits .crash ∧ (Shows crates disk id recipient wrapped
        ∨ Shows crates disk id recipient shown) →
      permits .crash ∧ Sound crates disk ∧ (loadKeyring crates disk = loadKeyring crates start
        ∨ loadKeyring crates disk = loadKeyring crates final) := by
    rintro disk ⟨permitted, before | after⟩
    · exact ⟨permitted, .inr ⟨_, _, _, before⟩, .inl (by rw [before.load, shows.load])⟩
    · exact ⟨permitted, .inr ⟨_, _, _, after⟩, .inr (by rw [after.load, showsFinal.load])⟩
  apply triple_andThen ((each permits noFail).mono (fun _ isStart => isStart) (fun _ _ ends => ends)
    (fun _ _ fails => fails) known)
  rintro _ script permitted disk ⟨succeeds, isFinal⟩
  exact leads_ok (leads_loaded showsFinal) (fun _ _ loaded => ⟨succeeds, loaded.2⟩) script permitted
    disk isFinal

/-- The current revision is given, and the keyring names an identity or the file of one is not
there. -/
theorem ends_rewrap {new : Option (List Char)} (shows : Shows crates start id recipient wrapped)
    (valid : validateOptionalWrappedIdentity crates new = .ok ()) : ∃ final, Sound crates final
      ∧ Ends crates start
        (rewrapIdentity crates (snapshotOf crates id recipient wrapped).revision new) final
        (new = none ∨ wrapped ≠ none ∨ start.identities id = none) := by
  cases new with
  | none =>
    cases wrapped with
    | none =>
      refine ⟨start, .inr ⟨_, _, _, shows⟩, ends_of_record shows valid shows fun _ _ => ?_⟩
      exact leads_done ⟨.inl rfl, rfl⟩
    | some old =>
      have unnamed : Shows crates (start.putKeyring (keyringOf id recipient none)) id recipient
          none := ⟨rfl, shows.isKeyId, shows.isRecipient, nofun⟩
      have removed : Shows crates
          ((start.putKeyring (keyringOf id recipient none)).putIdentity id none) id recipient
          none := ⟨rfl, shows.isKeyId, shows.isRecipient, nofun⟩
      have present : hasMetadata start = true := congrArg Option.isSome shows.metadata
      refine ⟨_, .inr ⟨_, _, _, removed⟩, ends_of_record shows valid removed
        fun permits noFail => ?_⟩
      apply leads_then (leads_replace noFail (.inl shows) present) fun _ => ?_
      apply leads_then (leads_call noFail (.inr unnamed)) fun _ => ?_
      exact leads_ok (leads_call noFail (.inr unnamed)) fun _ _ isFinal => ⟨.inl rfl, isFinal⟩
  | some armor =>
    have isArmor := isArmor_of_valid valid armor rfl
    cases wrapped with
    | some old =>
      have rewrapped : Shows crates (start.putIdentity id (some armor)) id recipient (some armor) :=
        ⟨shows.metadata, shows.isKeyId, shows.isRecipient, isArmor_putIdentity isArmor⟩
      have present : hasIdentity id start = true :=
        congrArg Option.isSome (shows.isArmor old rfl).1
      refine ⟨_, .inr ⟨_, _, _, rewrapped⟩, ends_of_record shows valid rewrapped
        fun permits noFail => ?_⟩
      apply leads_then (leads_replace noFail (.inl shows) present) fun _ => ?_
      exact leads_ok (leads_call noFail (.inr rewrapped)) fun _ _ isFinal =>
        ⟨.inr (.inl (Option.some_ne_none old)), isFinal⟩
    | none =>
      by_cases free : start.identities id = none
      · have placed : Shows crates (start.putIdentity id (some armor)) id recipient none :=
          ⟨shows.metadata, shows.isKeyId, shows.isRecipient, nofun⟩
        have named : Shows crates ((start.putIdentity id (some armor)).putKeyring
            (keyringOf id recipient (some (identityFileName id)))) id recipient (some armor) :=
          ⟨rfl, shows.isKeyId, shows.isRecipient,
            @isArmor_putIdentity crates id start armor isArmor⟩
        have present : hasMetadata (start.putIdentity id (some armor)) = true :=
          congrArg Option.isSome shows.metadata
        refine ⟨_, .inr ⟨_, _, _, named⟩, ends_of_record shows valid named fun permits noFail => ?_⟩
        apply leads_then (leads_create noFail (.inl shows) (congrArg Option.isSome free))
          fun _ => ?_
        apply leads_then (leads_call noFail (.inl placed)) fun _ => ?_
        apply leads_attempt (leads_replace noFail (.inl placed) present)
        exact leads_ok (leads_call noFail (.inr named)) fun _ _ isFinal =>
          ⟨.inr (.inr free), isFinal⟩
      · have taken : hasIdentity id start = true := Option.isSome_iff_ne_none.2 free
        refine ⟨start, .inr ⟨_, _, _, shows⟩, ends_of_record shows valid shows
          fun permits noFail => ?_⟩
        apply leads_refused
        exact leads_create_occupied noFail (.inl shows) taken ⟨by simp [free], rfl⟩

end Calls

/-! ### Sequences of calls -/

inductive Call where
  | setup (keyId recipient : String) (wrapped : Option (List Char))
  | rewrap (expectedRevision : String) (wrapped : Option (List Char))

def Call.program : Call → Filing KeyringSnapshot
  | .setup keyId recipient wrapped => setupKeyring crates keyId recipient wrapped
  | .rewrap expectedRevision wrapped => rewrapIdentity crates expectedRevision wrapped

def Interrupted (script : List (Fault Bool)) : Prop :=
  ∀ fault ∈ script, fault = .proceed ∨ fault = .crash

def diskAfter (call : Call) (script : List (Fault Bool)) (disk : CryptoDir) : CryptoDir :=
  (call.program crates script disk).state

inductive Reachable : CryptoDir → Prop
  | empty : Reachable .empty
  | call {disk : CryptoDir} (call : Call) {script : List (Fault Bool)} :
      Reachable disk → Interrupted script → Reachable (diskAfter crates call script disk)

section Sequences

variable {crates} {disk start final : CryptoDir} {program : Filing KeyringSnapshot}
  {succeeds : Prop} {script : List (Fault Bool)}

theorem ends_call (sound : Sound crates start) (call : Call) : ∃ final succeeds,
    Sound crates final ∧ Ends crates start (call.program crates) final succeeds := by
  cases call with
  | setup keyId recipient wrapped => exact ends_setup sound keyId
  | rewrap expectedRevision wrapped =>
    cases isValid : validateOptionalWrappedIdentity crates wrapped with
    | error failure =>
      refine ⟨start, False, sound, ?_⟩
      rw [Call.program, rewrapIdentity, isValid, check_error]
      exact ends_fail
    | ok _ =>
    rcases sound with absent | ⟨id, recipient, shown, shows⟩
    · refine ⟨start, False, .inl absent, fun permits _ => ?_⟩
      rw [Call.program, rewrapIdentity, isValid, check_ok]
      apply leads_refused
      intro script permitted disk isStart
      have failed : loadInitialized crates script disk
          = Program.fail .notInitialized script disk := by
        simp [isStart, loadInitialized, Program.andThen, Program.observe, load_of_none absent,
          Program.fail]
      rw [failed]
      exact ⟨⟨not_false, isStart⟩, fun _ member => absurd member List.not_mem_nil, permitted⟩
    · by_cases current : (snapshotOf crates id recipient shown).revision = expectedRevision
      · have ⟨final, isSound, ends⟩ := ends_rewrap shows isValid
        exact ⟨final, _, isSound, current ▸ ends⟩
      · refine ⟨start, False, .inr ⟨_, _, _, shows⟩, fun permits _ => ?_⟩
        rw [Call.program, rewrapIdentity, isValid, check_ok]
        apply leads_load shows
        rw [if_pos current]
        exact leads_fail ⟨not_false, rfl⟩

/-- A call that is not stopped. -/
theorem Ends.completed (ends : Ends crates start program final succeeds) :
    (program [] start).state = final ∧ ((program [] start).outcome.isOk = true ↔ succeeds) := by
  have meets := (ends (fun fault => fault = .proceed) nofun [] nofun start rfl).1
  unfold Run.Meets at meets
  cases result : (program [] start).outcome with
  | ok value =>
    rw [result] at meets
    exact ⟨meets.2, fun _ => meets.1, fun _ => rfl⟩
  | error failure =>
    rw [result] at meets
    exact ⟨meets.2, nofun, fun succeeds => absurd succeeds meets.1⟩
  | crashed =>
    rw [result] at meets
    exact absurd meets.1 nofun

/-- Where a call may be stopped, the keyring is the one before it or the one it leaves. -/
theorem Ends.stopped (ends : Ends crates start program final succeeds)
    (sound : Sound crates final) (interrupted : Interrupted script) :
    Sound crates (program script start).state
      ∧ (loadKeyring crates (program script start).state = loadKeyring crates start
        ∨ loadKeyring crates (program script start).state = loadKeyring crates final) := by
  have meets := (ends (fun fault => fault = .proceed ∨ fault = .crash) (fun _ => by simp) script
    interrupted start rfl).1
  unfold Run.Meets at meets
  cases result : (program script start).outcome <;> rw [result] at meets
  · rw [meets.2]
    exact ⟨sound, .inr rfl⟩
  · rw [meets.2]
    exact ⟨sound, .inr rfl⟩
  · exact meets.2

theorem sound_of_reachable (reachable : Reachable crates disk) : Sound crates disk := by
  induction reachable with
  | empty => exact .inl rfl
  | call call _ interrupted ih =>
    have ⟨final, succeeds, isSound, ends⟩ := ends_call ih call
    exact (ends.stopped isSound interrupted).1

theorem Sound.load (sound : Sound crates disk) : ∃ shown, loadKeyring crates disk = .ok shown := by
  rcases sound with absent | ⟨_, _, _, shows⟩
  · exact ⟨_, load_of_none absent⟩
  · exact ⟨_, shows.load⟩

end Sequences

/-- **An interrupted change is retried** unless the keyring names no identity and the file of one
is left. -/
theorem rewrap_succeeds_iff {disk : CryptoDir} (reachable : Reachable crates disk) (call : Call)
    {script : List (Fault Bool)} (interrupted : Interrupted script) :
    (∃ before shown after, loadKeyring crates disk = .ok before
      ∧ loadKeyring crates (diskAfter crates call script disk) = .ok shown
      ∧ loadKeyring crates (diskAfter crates call [] disk) = .ok after
      ∧ (shown = before ∨ shown = after))
    ∧ ∀ snapshot, loadKeyring crates (diskAfter crates call script disk) = .ok (some snapshot) →
        ∀ wrapped, validateOptionalWrappedIdentity crates wrapped = .ok () →
          ((rewrapIdentity crates snapshot.revision wrapped []
              (diskAfter crates call script disk)).outcome.isOk = true
            ↔ wrapped = none ∨ snapshot.wrappedIdentity ≠ none
              ∨ (diskAfter crates call script disk).identities snapshot.keyring.activeKeyId
                = none) := by
  have sound := sound_of_reachable reachable
  have ⟨final, succeeds, isSound, ends⟩ := ends_call sound call
  have ⟨stoppedSound, isShown⟩ := ends.stopped isSound interrupted
  constructor
  · have ⟨before, isBefore⟩ := sound.load
    have ⟨shown, loads⟩ := stoppedSound.load
    have ⟨after, isAfter⟩ := isSound.load
    refine ⟨before, shown, after, isBefore, loads, ?_, ?_⟩
    · rw [diskAfter, ends.completed.1, isAfter]
    · rw [loads, isBefore, isAfter] at isShown
      exact isShown.imp Except.ok.inj Except.ok.inj
  · intro snapshot loads wrapped valid
    have reached : Sound crates (diskAfter crates call script disk) := stoppedSound
    rcases reached with absent | ⟨id, recipient, shown, shows⟩
    · rw [load_of_none absent] at loads
      cases loads
    · rw [shows.load] at loads
      obtain rfl := Option.some.inj (Except.ok.inj loads)
      have ⟨_, _, retried⟩ := ends_rewrap shows valid
      exact retried.completed.2

/-! ### A vault whose identity was stopped halfway -/

def exampleKeyId : String := "0190b7c0-0000-7000-8000-000000000001"

def exampleRecipient : String := "age1qqqqqqqqqqqqqqqqqqqqqqqqqqqqqqqqqqqqqqqqqqqqqqqqqqqqqqqqqq"

def exampleRevision : String := "3e5631d75d76a83d7f50d4b3a05d32b6b83d7f2e22646d6a44e55c34382e3cd7"

def exampleToml (keyring : VaultKeyring) : String :=
  "version = " ++ toString keyring.version ++ "\nactive_key_id = \"" ++ keyring.activeKeyId
    ++ "\"\n" ++ String.join (keyring.keys.map fun record =>
      "\n[[keys]]\nid = \"" ++ record.id ++ "\"\nrecipient = \"" ++ record.recipient ++ "\"\n"
        ++ match record.wrappedIdentityFile with
          | some file => "wrapped_identity_file = \"" ++ file ++ "\"\n"
          | none => "")

def exampleCrates : Crates := ⟨exampleToml, fun _ => exampleRevision, Armor.atobCrate⟩

def exampleArmor : List Char := Armor.armored (Base64.btoa Armor.ageHeader)

def exampleVault : CryptoDir :=
  diskAfter exampleCrates (.setup exampleKeyId exampleRecipient none) [] .empty

theorem exampleVault_reachable : Reachable exampleCrates exampleVault :=
  .call (.setup exampleKeyId exampleRecipient none) .empty nofun

def exampleStopped : CryptoDir :=
  diskAfter exampleCrates (.rewrap exampleRevision (some exampleArmor)) [.proceed, .crash]
    exampleVault

/-- A call that was not stopped leaves a keyring that can be rewrapped. -/
theorem rewrap_succeeds_exampleVault :
    (rewrapIdentity exampleCrates exampleRevision (some exampleArmor) [] exampleVault).outcome.isOk
      = true :=
  ((@rewrap_succeeds_iff exampleCrates _ .empty (.setup exampleKeyId exampleRecipient none) []
    nofun).2
    (snapshotOf exampleCrates exampleKeyId exampleRecipient none) (by decide)
    (some exampleArmor) (by decide)).2 (.inr (.inr rfl))

/-- After the stopped call the same change is refused, as the file exists. -/
theorem rewrap_refused_exampleStopped :
    ¬∀ (crates : Crates) (disk : CryptoDir), Reachable crates disk → ∀ (call : Call) script,
      Interrupted script → ∀ snapshot,
        loadKeyring crates (diskAfter crates call script disk) = .ok (some snapshot) →
          ∀ wrapped, validateOptionalWrappedIdentity crates wrapped = .ok () →
            (rewrapIdentity crates snapshot.revision wrapped []
              (diskAfter crates call script disk)).outcome.isOk = true := by
  intro retries
  have retried := retries exampleCrates exampleVault exampleVault_reachable
    (.rewrap exampleRevision (some exampleArmor)) [.proceed, .crash] (by simp [Interrupted])
    (snapshotOf exampleCrates exampleKeyId exampleRecipient none) (by decide)
    (some exampleArmor) (by decide)
  have refused : (rewrapIdentity exampleCrates exampleRevision (some exampleArmor) []
      exampleStopped).outcome = .error (.publication ⟨true, false⟩) := by decide
  exact absurd ((congrArg Outcome.isOk refused).symm.trans retried) Bool.false_ne_true

end Clepsydra.Vault.Keyring
