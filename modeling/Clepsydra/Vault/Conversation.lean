import Clepsydra.Library.Fallible
import Clepsydra.Library.Sha256
import Clepsydra.Vault.Canonical

/-!
Owns: captured conversations: how a transcript is prepared, the stored ledger, and appending.

Proves: what is accepted is exactly an extension of what is stored.
-/

namespace Clepsydra.Vault.Conversation

open Library Library.Fallible List String

/-! ### Turns and ledgers -/

inductive ConversationRole where
  | user
  | assistant
deriving DecidableEq

structure Content where
  text : String
  fits : text.utf8ByteSize < 2 ^ 64
deriving DecidableEq

structure ConversationTurn where
  role : ConversationRole
  content : Content
  sourceTurnId : Option String
  timestamp : Option Int
deriving DecidableEq

structure PreparedTurn where
  role : ConversationRole
  content : Content
  sourceIdentity : String
  sourceSequence : Nat
  timestamp : Option Int
deriving DecidableEq

structure ConversationLedger where
  provider : Option String
  hostIdHash : Option String
  capturedTurnCount : Nat
  capturedPrefixHash : String
  lastSourceIdentity : String
deriving DecidableEq

structure PreparedTranscript where
  turns : List PreparedTurn
  prefixHashes : List String
  ledger : ConversationLedger
deriving DecidableEq

inductive AppendDecision where
  | unchanged
  | appendFrom (index : Nat)
deriving DecidableEq

inductive ConversationError where
  | invalidProvider
  | blankHostId
  | invalidHostIdHash
  | blankTurnContent (sequence : Nat)
  | duplicateSourceTurnId (firstSequence duplicateSequence : Nat)
  | turnCountOverflow
  | invalidLedger (reason : String)
  | invalidTranscript (reason : String)
  | providerConflict
  | hostIdentityConflict
  | truncatedTranscript (existing submitted : Nat)
  | divergentTranscript (sequence : Nat)
deriving DecidableEq

def ConversationError.toText : ConversationError → String
  | .invalidProvider => "provider must contain 1-64 characters from [a-z0-9._-]"
  | .blankHostId => "host ID must not be blank"
  | .invalidHostIdHash =>
    "host ID hash must be a sha256: prefix followed by 64 lowercase hex characters"
  | .blankTurnContent sequence => "turn " ++ toString sequence ++ " content must not be blank"
  | .duplicateSourceTurnId first duplicate =>
    "source turn ID at sequence " ++ toString duplicate ++ " repeats sequence " ++ toString first
  | .turnCountOverflow => "turn count exceeds the supported range"
  | .invalidLedger reason => "invalid conversation ledger: " ++ reason
  | .invalidTranscript reason => "invalid prepared transcript: " ++ reason
  | .providerConflict => "submitted transcript provider differs from the stored conversation"
  | .hostIdentityConflict =>
    "submitted transcript host identity differs from the stored conversation"
  | .truncatedTranscript existing submitted =>
    "submitted transcript has " ++ toString submitted ++ " turns but the stored conversation has "
      ++ toString existing
  | .divergentTranscript sequence =>
    "submitted transcript diverges from the stored conversation at sequence " ++ toString sequence

/-! ### Hashes -/

def bytesOf (text : String) : List UInt8 := text.toByteArray.data.toList

def turnHashDomain : List UInt8 := bytesOf "clepsydra-conversation-turn-v1"

def prefixHashDomain : List UInt8 := bytesOf "clepsydra-conversation-prefix-v1"

/-- `hash_component`: what it adds to the message that is hashed. -/
def hashComponent (component : List UInt8) : List UInt8 := framed 8 component

def hexDigit (value : Nat) : Char :=
  if value < 10 then Char.ofNat (48 + value) else Char.ofNat (87 + value)

/-- `hash_string`, of the message hashed so far. -/
def hashString (message : List UInt8) : String :=
  String.ofList ("sha256:".toList ++ (Sha256.digest message).flatMap fun byte =>
    [hexDigit (byte.toNat / 16), hexDigit (byte.toNat % 16)])

def isLowerHex (character : Char) : Bool :=
  ('0' ≤ character && character ≤ '9') || ('a' ≤ character && character ≤ 'f')

/-- `validate_sha256`. -/
def validateSha256 (hash : String) : Except String Unit :=
  match stripStart "sha256:" hash with
  | none => .error "hash must start with sha256:"
  | some hex =>
    if hex.utf8ByteSize ≠ 64 ∨ hex.toList.all isLowerHex = false then
      .error "hash must contain exactly 64 lowercase hex characters"
    else .ok ()

def roleToken : ConversationRole → List UInt8
  | .user => bytesOf "user"
  | .assistant => bytesOf "assistant"

/-- `turn_identity`. -/
def turnIdentity (role : ConversationRole) (provider : String) (sourceTurnId : Option String)
    (content : String) : String :=
  hashString (turnHashDomain ++ hashComponent (roleToken role) ++
    match sourceTurnId with
    | some id => hashComponent (bytesOf provider) ++ hashComponent (bytesOf id)
    | none => hashComponent (bytesOf content))

def emptyPrefixHash : String := hashString prefixHashDomain

/-! ### Preparing -/

def isProviderCharacter (character : Char) : Bool :=
  ('a' ≤ character && character ≤ 'z') || ('0' ≤ character && character ≤ '9')
    || character = '.' || character = '_' || character = '-'

/-- `normalize_provider`. -/
def normalizeProvider : Option String → Except ConversationError (Option String)
  | none => .ok none
  | some raw =>
    let normalized := String.ofList ((trim raw).toList.map Char.toLower)
    if normalized = "" ∨ 64 < normalized.utf8ByteSize
        ∨ normalized.toList.all isProviderCharacter = false then
      .error .invalidProvider
    else .ok (some normalized)

/-- The turns of a transcript from an index on; `seen` are the source ids before it. -/
def prepareTurns (provider : String) (seen : List (String × Nat)) :
    Nat → List ConversationTurn → Except ConversationError (List PreparedTurn)
  | _, [] => .ok []
  | index, turn :: rest =>
    if 2 ^ 64 ≤ index + 1 then .error .turnCountOverflow
    else if trim turn.content.text = "" then .error (.blankTurnContent (index + 1))
    else
      let sourceTurnId := turn.sourceTurnId.filter fun id => trim id ≠ ""
      match sourceTurnId.bind fun id => seen.lookup id with
      | some first => .error (.duplicateSourceTurnId first (index + 1))
      | none =>
        let seen := (sourceTurnId.map fun id => (id, index + 1)).toList ++ seen
        (prepareTurns provider seen (index + 1) rest).map fun prepared =>
          ⟨turn.role, turn.content,
            turnIdentity turn.role provider sourceTurnId turn.content.text, index + 1,
            turn.timestamp⟩ :: prepared

def turnMessage (turn : PreparedTurn) : List UInt8 :=
  hashComponent (bigEndian 8 turn.sourceSequence) ++ hashComponent (bytesOf turn.sourceIdentity)
    ++ hashComponent (roleToken turn.role) ++ hashComponent (bytesOf turn.content.text)

def prefixHashesFrom (message : List UInt8) : List PreparedTurn → List String
  | [] => []
  | turn :: rest =>
    hashString (message ++ turnMessage turn) :: prefixHashesFrom (message ++ turnMessage turn) rest

def validateHostIdHash : Option String → Except ConversationError Unit
  | some hash => (validateSha256 hash).mapError fun _ => .invalidHostIdHash
  | none => .ok ()

/-- `prepare_transcript`. -/
def prepareTranscript (provider hostIdHash : Option String) (turns : List ConversationTurn) :
    Except ConversationError PreparedTranscript := do
  let provider ← normalizeProvider provider
  validateHostIdHash hostIdHash
  if 2 ^ 64 ≤ turns.length then .error .turnCountOverflow
  else
    let prepared ← prepareTurns (provider.getD "") [] 0 turns
    let prefixHashes := prefixHashesFrom prefixHashDomain prepared
    .ok ⟨prepared, prefixHashes,
        ⟨provider, hostIdHash, turns.length, prefixHashes.getLast?.getD emptyPrefixHash,
          (prepared.getLast?.map PreparedTurn.sourceIdentity).getD ""⟩⟩

/-! ### Appending -/

def validateProvider : Option String → Except ConversationError Unit
  | some provider => do
      let normalized ← normalizeProvider (some provider)
      if normalized ≠ some provider then .error (.invalidLedger "provider is not normalized")
      else .ok ()
  | none => .ok ()

/-- `validate_ledger`. -/
def validateLedger (ledger : ConversationLedger) : Except ConversationError Unit := do
  validateProvider ledger.provider
  validateHostIdHash ledger.hostIdHash
  (validateSha256 ledger.capturedPrefixHash).mapError .invalidLedger
  if ledger.capturedTurnCount = 0 then
    if ledger.lastSourceIdentity ≠ "" then
      .error (.invalidLedger "an empty ledger cannot have a last source identity")
    else .ok ()
  else (validateSha256 ledger.lastSourceIdentity).mapError .invalidLedger

def validateTurns : Nat → List (PreparedTurn × String) → Except ConversationError Unit
  | _, [] => .ok ()
  | index, (turn, prefixHash) :: rest =>
    if 2 ^ 64 ≤ index + 1 then .error .turnCountOverflow
    else if turn.sourceSequence ≠ index + 1 then
      .error (.invalidTranscript "turn sequences must be contiguous and one-based")
    else do
      (validateSha256 turn.sourceIdentity).mapError .invalidTranscript
      (validateSha256 prefixHash).mapError .invalidTranscript
      validateTurns (index + 1) rest

/-- `validate_prepared_transcript`. -/
def validatePreparedTranscript (transcript : PreparedTranscript) : Except ConversationError Unit :=
  if 2 ^ 64 ≤ transcript.ledger.capturedTurnCount then
    .error (.invalidTranscript "turn count exceeds platform limits")
  else if transcript.turns.length ≠ transcript.ledger.capturedTurnCount
      ∨ transcript.prefixHashes.length ≠ transcript.ledger.capturedTurnCount then
    .error (.invalidTranscript "turn, prefix, and ledger counts differ")
  else do
    validateTurns 0 (transcript.turns.zip transcript.prefixHashes)
    let expectedPrefixHash := transcript.prefixHashes.getLast?.getD emptyPrefixHash
    let expectedLastIdentity := (transcript.turns.getLast?.map PreparedTurn.sourceIdentity).getD ""
    if transcript.ledger.capturedPrefixHash ≠ expectedPrefixHash
        ∨ transcript.ledger.lastSourceIdentity ≠ expectedLastIdentity then
      .error (.invalidTranscript "ledger does not describe the prepared turns")
    else
      (validateLedger transcript.ledger).mapError fun error => .invalidTranscript error.toText

inductive Outcome where
  | returned (result : Except ConversationError AppendDecision)
  | panicked

/-- `verify_append`, once both sides are valid. -/
def compareTranscripts (existing : ConversationLedger) (submitted : PreparedTranscript) : Outcome :=
  if existing.provider ≠ submitted.ledger.provider then .returned (.error .providerConflict)
  else if existing.hostIdHash ≠ submitted.ledger.hostIdHash then
    .returned (.error .hostIdentityConflict)
  else if submitted.ledger.capturedTurnCount < existing.capturedTurnCount then
    .returned (.error
      (.truncatedTranscript existing.capturedTurnCount submitted.ledger.capturedTurnCount))
  else if 2 ^ 64 ≤ existing.capturedTurnCount then
    .returned (.error (.invalidLedger "turn count exceeds platform limits"))
  else
    let finish : Outcome :=
      if submitted.ledger.capturedTurnCount = existing.capturedTurnCount then
        if submitted.ledger.capturedPrefixHash = existing.capturedPrefixHash then
          .returned (.ok .unchanged)
        else .returned (.error (.divergentTranscript existing.capturedTurnCount))
      else .returned (.ok (.appendFrom existing.capturedTurnCount))
    if existing.capturedTurnCount = 0 then finish
    else
      match submitted.prefixHashes[existing.capturedTurnCount - 1]? with
      | none => .panicked
      | some hash =>
        if hash ≠ existing.capturedPrefixHash then
          .returned (.error (.divergentTranscript existing.capturedTurnCount))
        else finish

def verifyAppend (existing : ConversationLedger) (submitted : PreparedTranscript) : Outcome :=
  match validateLedger existing with
  | .error error => .returned (.error error)
  | .ok _ =>
    match validatePreparedTranscript submitted with
    | .error error => .returned (.error error)
    | .ok _ => compareTranscripts existing submitted

/-! ### Texts and hashes -/

theorem length_bytesOf (text : String) : (bytesOf text).length = text.utf8ByteSize := rfl

theorem bytesOf_injective {left right : String} (same : bytesOf left = bytesOf right) :
    left = right := by
  apply String.toByteArray_inj.1
  apply ByteArray.ext
  exact Array.toList_inj.1 same

theorem hexDigit_spec (value : Fin 16) :
    isLowerHex (hexDigit value) = true ∧ (hexDigit value).utf8Size = 1 := by
  revert value
  decide

theorem hexDigit_injective :
    ∀ left right : Fin 16, hexDigit left = hexDigit right → left = right := by
  decide

def hexByte (byte : UInt8) : List Char := [hexDigit (byte.toNat / 16), hexDigit (byte.toNat % 16)]

theorem hexByte_injective {left right : UInt8} (same : hexByte left = hexByte right) :
    left = right := by
  have leftBound := left.toNat_lt
  have rightBound := right.toNat_lt
  have ⟨sameHigh, sameLow⟩ := List.cons.inj same
  have high := hexDigit_injective ⟨left.toNat / 16, by omega⟩ ⟨right.toNat / 16, by omega⟩ sameHigh
  have low := hexDigit_injective ⟨left.toNat % 16, by omega⟩ ⟨right.toNat % 16, by omega⟩
    (List.cons.inj sameLow).1
  have sameQuotient : left.toNat / 16 = right.toNat / 16 := Fin.val_eq_of_eq high
  have sameRemainder : left.toNat % 16 = right.toNat % 16 := Fin.val_eq_of_eq low
  apply UInt8.toNat_inj.1
  omega

theorem hexByte_spec {byte : UInt8} {character : Char} (member : character ∈ hexByte byte) :
    isLowerHex character = true ∧ character.utf8Size = 1 := by
  have bound := byte.toNat_lt
  rcases mem_cons.1 member with high | low
  · rw [high]
    exact hexDigit_spec ⟨byte.toNat / 16, by omega⟩
  · rw [mem_singleton.1 low]
    exact hexDigit_spec ⟨byte.toNat % 16, by omega⟩

theorem flatMap_hexByte_injective : ∀ {left right : List UInt8},
    left.flatMap hexByte = right.flatMap hexByte → left = right
  | [], [], _ => rfl
  | [], _ :: _, same => nomatch same
  | _ :: _, [], same => nomatch same
  | first :: left, second :: right, same => by
    rw [flatMap_cons, flatMap_cons] at same
    have ⟨sameByte, sameRest⟩ := append_inj same rfl
    rw [hexByte_injective sameByte, flatMap_hexByte_injective sameRest]

def hexDigest (message : List UInt8) : List Char := (Sha256.digest message).flatMap hexByte

theorem hashString_eq (message : List UInt8) :
    hashString message = String.ofList ("sha256:".toList ++ hexDigest message) := rfl

theorem hashString_injective {left right : List UInt8}
    (same : hashString left = hashString right) : Sha256.digest left = Sha256.digest right := by
  rw [hashString_eq, hashString_eq, ofList_inj] at same
  exact flatMap_hexByte_injective (append_cancel_left same)

theorem utf8ByteSize_ofList {characters : List Char}
    (narrow : ∀ character ∈ characters, character.utf8Size = 1) :
    (String.ofList characters).utf8ByteSize = characters.length := by
  induction characters with
  | nil => rfl
  | cons character rest ih =>
    rw [ofList_cons, utf8ByteSize_append, utf8ByteSize_singleton, narrow character mem_cons_self,
      ih fun other member => narrow other (mem_cons_of_mem _ member),
      length_cons]
    omega

theorem hexDigest_spec {message : List UInt8} {character : Char}
    (member : character ∈ hexDigest message) :
    isLowerHex character = true ∧ character.utf8Size = 1 := by
  have ⟨byte, _, isDigit⟩ := mem_flatMap.1 member
  exact hexByte_spec isDigit

theorem length_flatMap_hexByte (bytes : List UInt8) :
    (bytes.flatMap hexByte).length = 2 * bytes.length := by
  induction bytes with
  | nil => rfl
  | cons byte rest ih =>
    have two : (hexByte byte).length = 2 := rfl
    rw [flatMap_cons, List.length_append, ih, length_cons]
    omega

theorem length_hexDigest (message : List UInt8) : (hexDigest message).length = 64 := by
  rw [hexDigest, length_flatMap_hexByte, Sha256.length_digest]

theorem stripStart_append (start rest : List Char) :
    stripStart (String.ofList start) (String.ofList (start ++ rest))
      = some (String.ofList rest) := by
  unfold stripStart
  rw [toList_ofList, toList_ofList]
  have isStart : start.isPrefixOf (start ++ rest) = true :=
    isPrefixOf_iff_prefix.2 (prefix_append start rest)
  rw [if_pos isStart, drop_left]

theorem validateSha256_hashString (message : List UInt8) :
    validateSha256 (hashString message) = .ok () := by
  have isStripped : stripStart "sha256:" (hashString message)
      = some (String.ofList (hexDigest message)) :=
    stripStart_append "sha256:".toList (hexDigest message)
  have isSize : (String.ofList (hexDigest message)).utf8ByteSize = 64 := by
    rw [utf8ByteSize_ofList fun character member => (hexDigest_spec member).2, length_hexDigest]
  have isHex : (String.ofList (hexDigest message)).toList.all isLowerHex = true := by
    rw [toList_ofList, all_eq_true]
    exact fun character member => (hexDigest_spec member).1
  unfold validateSha256
  rw [isStripped]
  apply if_neg
  rw [isSize, isHex]
  simp

theorem utf8ByteSize_hashString (message : List UInt8) :
    (hashString message).utf8ByteSize = 71 := by
  have narrow : ∀ character ∈ "sha256:".toList ++ hexDigest message, character.utf8Size = 1 := by
    have inStart : ("sha256:".toList.all fun character => character.utf8Size == 1) = true := by
      decide
    intro character member
    rcases mem_append.1 member with start | digit
    · exact beq_iff_eq.1 (all_eq_true.1 inStart character start)
    · exact (hexDigest_spec digit).2
  rw [hashString_eq, utf8ByteSize_ofList narrow, List.length_append, length_hexDigest]
  rfl

/-! ### What is prepared -/

variable {index : Nat} {transcript : PreparedTranscript}

def PreparedTurn.compared (turn : PreparedTurn) : ConversationRole × Content × String :=
  (turn.role, turn.content, turn.sourceIdentity)

def Numbered : Nat → List PreparedTurn → Prop
  | _, [] => True
  | index, turn :: rest =>
    turn.sourceSequence = index + 1 ∧ index + 1 < 2 ^ 64
      ∧ (∃ message, turn.sourceIdentity = hashString message) ∧ Numbered (index + 1) rest

theorem numbered_prepareTurns {provider : String} : ∀ {turns : List ConversationTurn} {index : Nat}
    {seen : List (String × Nat)} {prepared : List PreparedTurn},
    prepareTurns provider seen index turns = .ok prepared →
      Numbered index prepared ∧ prepared.length = turns.length
  | [], index, seen, prepared, prepares => by
    rw [← Except.ok.inj prepares]
    exact ⟨trivial, rfl⟩
  | turn :: rest, index, seen, prepared, prepares => by
    unfold prepareTurns at prepares
    simp only at prepares
    split_ifs at prepares with tooMany blank
    split at prepares
    · exact nomatch prepares
    · have ⟨later, preparesRest, isPrepared⟩ := of_map_ok prepares
      have ⟨numbered, sameLength⟩ := numbered_prepareTurns preparesRest
      rw [← isPrepared]
      refine ⟨⟨rfl, Nat.not_le.1 tooMany, ⟨_, rfl⟩, numbered⟩, ?_⟩
      rw [length_cons, length_cons, sameLength]

theorem length_prefixHashesFrom (turns : List PreparedTurn) (message : List UInt8) :
    (prefixHashesFrom message turns).length = turns.length := by
  induction turns generalizing message with
  | nil => rfl
  | cons turn rest ih =>
    rw [prefixHashesFrom, length_cons, length_cons, ih]

def prefixMessage (turns : List PreparedTurn) : List UInt8 :=
  prefixHashDomain ++ turns.flatMap turnMessage

variable {turns : List PreparedTurn}

theorem getElem?_prefixHashesFrom {message : List UInt8} (below : index < turns.length) :
    (prefixHashesFrom message turns)[index]?
      = some (hashString (message ++ (turns.take (index + 1)).flatMap turnMessage)) := by
  induction turns generalizing message index with
  | nil => exact absurd below (Nat.not_lt_zero index)
  | cons turn rest ih =>
    rw [prefixHashesFrom]
    cases index with
    | zero => simp
    | succ index =>
      rw [getElem?_cons_succ, ih (Nat.lt_of_succ_lt_succ below),
        take_succ_cons, flatMap_cons, List.append_assoc]

/-- What `prepare_transcript` says of its result. -/
structure Prepared (transcript : PreparedTranscript) : Prop where
  numbered : Numbered 0 transcript.turns
  few : transcript.turns.length < 2 ^ 64
  hashes : transcript.prefixHashes = prefixHashesFrom prefixHashDomain transcript.turns
  count : transcript.ledger.capturedTurnCount = transcript.turns.length
  captured : transcript.ledger.capturedPrefixHash
    = transcript.prefixHashes.getLast?.getD emptyPrefixHash
  last : transcript.ledger.lastSourceIdentity
    = (transcript.turns.getLast?.map PreparedTurn.sourceIdentity).getD ""
  provider : ∃ raw, normalizeProvider raw = .ok transcript.ledger.provider
  host : validateHostIdHash transcript.ledger.hostIdHash = .ok ()

theorem prepared_of_prepareTranscript {provider hostIdHash : Option String}
    {turns : List ConversationTurn}
    (prepares : prepareTranscript provider hostIdHash turns = .ok transcript) :
    Prepared transcript := by
  unfold prepareTranscript at prepares
  have ⟨normalized, normalizes, prepares⟩ := of_bind_ok prepares
  have ⟨_, hostValid, prepares⟩ := of_bind_ok prepares
  split_ifs at prepares with tooMany
  have ⟨prepared, preparesTurns, prepares⟩ := of_bind_ok prepares
  have ⟨numbered, sameLength⟩ := numbered_prepareTurns preparesTurns
  rw [← Except.ok.inj prepares]
  refine ⟨numbered, ?_, rfl, sameLength.symm, rfl, rfl, ⟨provider, normalizes⟩, hostValid⟩
  rw [sameLength]
  exact Nat.not_le.1 tooMany

theorem captured_prepared (prepared : Prepared transcript) :
    transcript.ledger.capturedPrefixHash = hashString (prefixMessage transcript.turns) := by
  rw [prepared.captured, prepared.hashes, List.getLast?_eq_getElem?, length_prefixHashesFrom]
  by_cases empty : transcript.turns = []
  · rw [empty]
    rfl
  · have positive : 0 < transcript.turns.length := length_pos_iff.2 empty
    have whole : transcript.turns.length - 1 + 1 = transcript.turns.length := by omega
    rw [getElem?_prefixHashesFrom (by omega), whole, take_length]
    rfl

/-! ### What is prepared is valid -/

theorem isProviderCharacter_spec {character : Char}
    (allowed : isProviderCharacter character = true) :
    isWhitespace character = false ∧ character.toLower = character := by
  have code : (97 ≤ character.toNat ∧ character.toNat ≤ 122)
      ∨ (48 ≤ character.toNat ∧ character.toNat ≤ 57) ∨ character.toNat = 46
      ∨ character.toNat = 95 ∨ character.toNat = 45 := by
    simp only [isProviderCharacter, Bool.or_eq_true, Bool.and_eq_true, decide_eq_true_eq,
      Char.le_def, UInt32.le_iff_toNat_le] at allowed
    rcases allowed with (((letter | number) | dot) | underscore) | dash
    · exact .inl letter
    · exact .inr (.inl number)
    · exact .inr (.inr (.inl (by rw [dot]; rfl)))
    · exact .inr (.inr (.inr (.inl (by rw [underscore]; rfl))))
    · exact .inr (.inr (.inr (.inr (by rw [dash]; rfl))))
  constructor
  · simp only [isWhitespace, Bool.or_eq_false_iff, Bool.and_eq_false_iff, decide_eq_false_iff_not,
      beq_eq_false_iff_ne]
    omega
  · unfold Char.toLower
    rw [dif_neg]
    rintro ⟨low, high⟩
    have fromA : 65 ≤ character.toNat := UInt32.le_iff_toNat_le.1 low
    have toZ : character.toNat ≤ 90 := UInt32.le_iff_toNat_le.1 high
    omega

theorem trim_of_forall {text : String}
    (solid : ∀ character ∈ text.toList, isWhitespace character = false) : trim text = text := by
  have kept : ∀ characters : List Char, (∀ character ∈ characters, isWhitespace character = false) →
      characters.dropWhile isWhitespace = characters := by
    intro characters allSolid
    cases characters with
    | nil => rfl
    | cons character rest =>
      rw [dropWhile_cons_of_neg]
      rw [allSolid character mem_cons_self]
      decide
  have keptBack := kept text.toList.reverse fun character member =>
    solid character (mem_reverse.1 member)
  rw [trim, kept text.toList solid, keptBack, reverse_reverse, ofList_toList]

theorem normalizeProvider_idempotent {raw : Option String} {provider : String}
    (normalizes : normalizeProvider raw = .ok (some provider)) :
    normalizeProvider (some provider) = .ok (some provider) := by
  cases raw with
  | none => exact nomatch Except.ok.inj normalizes
  | some raw =>
    simp only [normalizeProvider] at normalizes
    split_ifs at normalizes with invalid
    have isProvider := Option.some.inj (Except.ok.inj normalizes)
    rw [isProvider] at invalid
    have allowed : ∀ character ∈ provider.toList, isProviderCharacter character = true := by
      have all := mt (fun failed => Or.inr (Or.inr failed)) invalid
      rw [Bool.not_eq_false, all_eq_true] at all
      exact all
    have trimmed : trim provider = provider := trim_of_forall fun character member =>
        (isProviderCharacter_spec (allowed character member)).1
    have lowered : provider.toList.map Char.toLower = provider.toList := by
      rw [map_congr_left fun character member =>
        (isProviderCharacter_spec (allowed character member)).2, map_id']
    simp only [normalizeProvider, trimmed, lowered, ofList_toList, if_neg invalid]

theorem validateProvider_prepared (prepared : Prepared transcript) :
    validateProvider transcript.ledger.provider = .ok () := by
  have ⟨raw, normalizes⟩ := prepared.provider
  cases isProvider : transcript.ledger.provider with
  | none => rfl
  | some provider =>
    rw [isProvider] at normalizes
    rw [validateProvider, normalizeProvider_idempotent normalizes]
    exact if_neg (not_not.2 rfl)

theorem validateTurns_numbered {message : List UInt8} (numbered : Numbered index turns) :
    validateTurns index (turns.zip (prefixHashesFrom message turns)) = .ok () := by
  induction turns generalizing index message with
  | nil => rfl
  | cons turn rest ih =>
    have ⟨isSequence, below, ⟨identity, isIdentity⟩, later⟩ := numbered
    rw [prefixHashesFrom, zip_cons_cons, validateTurns, if_neg (Nat.not_le.2 below),
      if_neg (not_not.2 isSequence), isIdentity, validateSha256_hashString,
      validateSha256_hashString]
    exact ih later

theorem exists_identity_of_mem {turn : PreparedTurn} (numbered : Numbered index turns)
    (member : turn ∈ turns) :
    ∃ message, turn.sourceIdentity = hashString message := by
  induction turns generalizing index with
  | nil => exact nomatch member
  | cons first rest ih =>
    rcases mem_cons.1 member with isFirst | later
    · rw [isFirst]
      exact numbered.2.2.1
    · exact ih numbered.2.2.2 later

theorem validateLedger_prepared (prepared : Prepared transcript) :
    validateLedger transcript.ledger = .ok () := by
  have prefixValid : validateSha256 transcript.ledger.capturedPrefixHash = .ok () := by
    rw [captured_prepared prepared]
    exact validateSha256_hashString _
  rw [validateLedger, validateProvider_prepared prepared, prepared.host, prefixValid,
    prepared.count, prepared.last]
  show (if _ then _ else _) = _
  by_cases empty : transcript.turns = []
  · rw [empty]
    rfl
  · have positive : transcript.turns.length ≠ 0 :=
      fun zero => empty (List.length_eq_zero_iff.1 zero)
    have isLast := getLast?_eq_some_getLast empty
    have ⟨identity, isIdentity⟩ :=
      exists_identity_of_mem prepared.numbered (getLast_mem empty)
    rw [if_neg positive, isLast, Option.map_some, Option.getD_some, isIdentity,
      validateSha256_hashString]
    rfl

theorem validatePreparedTranscript_prepared (prepared : Prepared transcript) :
    validatePreparedTranscript transcript = .ok () := by
  have sameCounts : ¬(transcript.turns.length ≠ transcript.ledger.capturedTurnCount
      ∨ transcript.prefixHashes.length ≠ transcript.ledger.capturedTurnCount) := by
    rw [prepared.hashes, length_prefixHashesFrom, prepared.count]
    simp
  have few : ¬2 ^ 64 ≤ transcript.ledger.capturedTurnCount := by
    rw [prepared.count]
    exact Nat.not_le.2 prepared.few
  have described : ¬(transcript.ledger.capturedPrefixHash
        ≠ transcript.prefixHashes.getLast?.getD emptyPrefixHash
      ∨ transcript.ledger.lastSourceIdentity
        ≠ (transcript.turns.getLast?.map PreparedTurn.sourceIdentity).getD "") := by
    rw [prepared.captured, prepared.last]
    simp
  have turnsValid : validateTurns 0 (transcript.turns.zip transcript.prefixHashes) = .ok () := by
    rw [prepared.hashes]
    exact validateTurns_numbered prepared.numbered
  rw [validatePreparedTranscript, if_neg few, if_neg sameCounts, turnsValid]
  show (if _ then _ else _) = _
  rw [if_neg described, validateLedger_prepared prepared]
  rfl

/-! ### What the hashes tell apart -/

theorem roleToken_injective {left right : ConversationRole}
    (same : roleToken left = roleToken right) : left = right := by
  cases left <;> cases right
  case user.user => rfl
  case assistant.assistant => rfl
  case user.assistant => exact absurd (bytesOf_injective same) (by decide)
  case assistant.user => exact absurd (bytesOf_injective same) (by decide)

theorem length_roleToken (role : ConversationRole) : (roleToken role).length < 256 ^ 8 := by
  cases role
  · show (bytesOf "user").length < _
    rw [length_bytesOf]
    decide
  · show (bytesOf "assistant").length < _
    rw [length_bytesOf]
    decide

theorem turnMessage_append_inj {left right : PreparedTurn}
    {leftLater rightLater : List PreparedTurn} {leftRest rightRest : List UInt8}
    (leftNumbered : Numbered index (left :: leftLater))
    (rightNumbered : Numbered index (right :: rightLater))
    (same : turnMessage left ++ leftRest = turnMessage right ++ rightRest) :
    left.compared = right.compared ∧ leftRest = rightRest := by
  have ⟨_, _, ⟨leftIdentity, isLeft⟩, _⟩ := leftNumbered
  have ⟨_, _, ⟨rightIdentity, isRight⟩, _⟩ := rightNumbered
  have short : ∀ message, (bytesOf (hashString message)).length < 256 ^ 8 := by
    intro message
    rw [length_bytesOf, utf8ByteSize_hashString]
    decide
  simp only [turnMessage, hashComponent, List.append_assoc] at same
  have ⟨_, same⟩ := framed_append_inj (by rw [length_bigEndian]; decide)
    (by rw [length_bigEndian]; decide) same
  have ⟨sameIdentity, same⟩ := framed_append_inj (by rw [isLeft]; exact short _)
    (by rw [isRight]; exact short _) same
  have ⟨sameRole, same⟩ := framed_append_inj (length_roleToken _) (length_roleToken _) same
  have ⟨sameContent, sameRest⟩ := framed_append_inj
    (by rw [length_bytesOf]; exact left.content.fits)
    (by rw [length_bytesOf]; exact right.content.fits) same
  refine ⟨?_, sameRest⟩
  have sameText : left.content = right.content := by
    have texts := bytesOf_injective sameContent
    cases isContent : left.content
    cases isOther : right.content
    simp only [isContent, isOther] at texts
    subst texts
    rfl
  rw [PreparedTurn.compared, PreparedTurn.compared, roleToken_injective sameRole, sameText,
    bytesOf_injective sameIdentity]

theorem turnMessage_congr {left right : PreparedTurn} {leftLater rightLater : List PreparedTurn}
    (leftNumbered : Numbered index (left :: leftLater))
    (rightNumbered : Numbered index (right :: rightLater)) (same : left.compared = right.compared) :
    turnMessage left = turnMessage right := by
  have ⟨sameRole, sameRest⟩ := Prod.mk.inj same
  have ⟨sameContent, sameIdentity⟩ := Prod.mk.inj sameRest
  rw [turnMessage, turnMessage, sameRole, sameContent, sameIdentity, leftNumbered.1,
    rightNumbered.1]

theorem flatMap_turnMessage_inj : ∀ {left right : List PreparedTurn} {index : Nat},
    Numbered index left → Numbered index right → left.length = right.length →
      (left.flatMap turnMessage = right.flatMap turnMessage
        ↔ left.map PreparedTurn.compared = right.map PreparedTurn.compared)
  | [], [], _, _, _, _ => by simp
  | [], _ :: _, _, _, _, sameLength => nomatch sameLength
  | _ :: _, [], _, _, _, sameLength => nomatch sameLength
  | first :: left, second :: right, index, leftNumbered, rightNumbered, sameLength => by
    have rest := flatMap_turnMessage_inj leftNumbered.2.2.2 rightNumbered.2.2.2
      (Nat.succ.inj sameLength)
    rw [flatMap_cons, flatMap_cons, map_cons, map_cons]
    constructor
    · intro same
      have ⟨sameTurn, sameRest⟩ := turnMessage_append_inj leftNumbered rightNumbered same
      rw [sameTurn, rest.1 sameRest]
    · intro same
      have ⟨sameTurn, sameRest⟩ := List.cons.inj same
      rw [turnMessage_congr leftNumbered rightNumbered sameTurn, rest.2 sameRest]

theorem Numbered.take (numbered : Numbered index turns) (count : Nat) :
    Numbered index (turns.take count) := by
  induction turns generalizing index count with
  | nil =>
    rw [take_nil]
    exact trivial
  | cons turn rest ih =>
    cases count with
    | zero => exact trivial
    | succ count =>
      have ⟨isSequence, below, identity, later⟩ := numbered
      exact ⟨isSequence, below, identity, ih later count⟩

def hashedBy (transcript : PreparedTranscript) : Set (List UInt8) :=
  {message | ∃ count, message = prefixMessage (transcript.turns.take count)}

def Extends (existing submitted : PreparedTranscript) : Prop :=
  existing.ledger.provider = submitted.ledger.provider
    ∧ existing.ledger.hostIdHash = submitted.ledger.hostIdHash
    ∧ existing.turns.map PreparedTurn.compared <+: submitted.turns.map PreparedTurn.compared

section Appending

variable {existing submitted : PreparedTranscript} (old : Prepared existing)
  (new : Prepared submitted)
  (apart : Set.InjOn Sha256.digest (hashedBy existing ∪ hashedBy submitted))

include old new apart

theorem sameHash_iff (enough : existing.turns.length ≤ submitted.turns.length) :
    hashString (prefixMessage (submitted.turns.take existing.turns.length))
        = existing.ledger.capturedPrefixHash
      ↔ existing.turns.map PreparedTurn.compared <+: submitted.turns.map PreparedTurn.compared := by
  have sameLength : (submitted.turns.take existing.turns.length).length
      = existing.turns.length := by
    rw [length_take, Nat.min_eq_left enough]
  have sameTurns := flatMap_turnMessage_inj (new.numbered.take existing.turns.length) old.numbered
    sameLength
  have isPrefix : existing.turns.map PreparedTurn.compared
        <+: submitted.turns.map PreparedTurn.compared
      ↔ (submitted.turns.take existing.turns.length).map PreparedTurn.compared
        = existing.turns.map PreparedTurn.compared := by
    rw [prefix_iff_eq_take, List.length_map, map_take]
    exact eq_comm
  rw [captured_prepared old, isPrefix, ← sameTurns]
  constructor
  · intro same
    have whole : prefixMessage existing.turns ∈ hashedBy existing :=
      ⟨existing.turns.length, by rw [take_length]⟩
    have sameMessage := apart (.inr ⟨existing.turns.length, rfl⟩) (.inl whole)
      (hashString_injective same)
    exact append_cancel_left sameMessage
  · intro same
    rw [prefixMessage, prefixMessage, same]

theorem compareTranscripts_prepared (decision : AppendDecision) :
    compareTranscripts existing.ledger submitted = .returned (.ok decision)
      ↔ Extends existing submitted
        ∧ decision = if submitted.turns.length = existing.turns.length then .unchanged
          else .appendFrom existing.turns.length := by
  unfold compareTranscripts Extends
  rw [old.count, new.count]
  by_cases sameProvider : existing.ledger.provider = submitted.ledger.provider
  swap
  · simp [sameProvider]
  by_cases sameHost : existing.ledger.hostIdHash = submitted.ledger.hostIdHash
  swap
  · simp [sameProvider, sameHost]
  rw [if_neg (not_not.2 sameProvider), if_neg (not_not.2 sameHost)]
  by_cases enough : existing.turns.length ≤ submitted.turns.length
  swap
  · rw [if_pos (Nat.not_le.1 enough)]
    refine ⟨nofun, fun ⟨⟨_, _, isPrefix⟩, _⟩ => ?_⟩
    have shorter := isPrefix.length_le
    rw [List.length_map, List.length_map] at shorter
    exact absurd shorter enough
  rw [if_neg (Nat.not_lt.2 enough), if_neg (Nat.not_le.2 old.few)]
  have hashes := sameHash_iff old new apart enough
  -- once the hashes agree, only the lengths decide
  have finishes : existing.turns.map PreparedTurn.compared
      <+: submitted.turns.map PreparedTurn.compared →
      ((if submitted.turns.length = existing.turns.length then
          if submitted.ledger.capturedPrefixHash = existing.ledger.capturedPrefixHash then
            Outcome.returned (.ok .unchanged)
          else .returned (.error (.divergentTranscript existing.turns.length))
        else .returned (.ok (.appendFrom existing.turns.length)))
      = .returned (.ok (if submitted.turns.length = existing.turns.length then .unchanged
          else .appendFrom existing.turns.length))) := by
    intro isPrefix
    by_cases sameLength : submitted.turns.length = existing.turns.length
    · have sameHash := hashes.2 isPrefix
      rw [← sameLength, take_length, ← captured_prepared new] at sameHash
      rw [if_pos sameLength, if_pos sameLength, if_pos sameHash]
    · rw [if_neg sameLength, if_neg sameLength]
  have decides : ∀ made : AppendDecision,
      Outcome.returned (.ok made) = .returned (.ok decision) ↔ decision = made := by
    intro made
    constructor
    · intro same
      exact (Except.ok.inj (Outcome.returned.inj same)).symm
    · intro same
      rw [same]
  by_cases none : existing.turns.length = 0
  · have isPrefix : existing.turns.map PreparedTurn.compared
        <+: submitted.turns.map PreparedTurn.compared := by
      rw [List.length_eq_zero_iff.1 none]
      exact nil_prefix
    rw [if_pos none, finishes isPrefix, decides]
    simp [sameProvider, sameHost, isPrefix]
  · have isHash : submitted.prefixHashes[existing.turns.length - 1]?
        = some (hashString (prefixMessage (submitted.turns.take existing.turns.length))) := by
      have whole : existing.turns.length - 1 + 1 = existing.turns.length := by omega
      rw [new.hashes, getElem?_prefixHashesFrom (by omega), whole]
      rfl
    rw [if_neg none, isHash]
    simp only
    by_cases isPrefix : existing.turns.map PreparedTurn.compared
        <+: submitted.turns.map PreparedTurn.compared
    · rw [if_neg (not_not.2 (hashes.2 isPrefix)), finishes isPrefix, decides]
      simp [sameProvider, sameHost, isPrefix]
    · rw [if_pos (mt hashes.1 isPrefix)]
      exact ⟨nofun, fun accepted => absurd accepted.1.2.2 isPrefix⟩

end Appending

theorem compareTranscripts_returns {existing : ConversationLedger} {submitted : PreparedTranscript}
    (counted : submitted.prefixHashes.length = submitted.ledger.capturedTurnCount) :
    compareTranscripts existing submitted ≠ .panicked := by
  unfold compareTranscripts
  by_cases otherProvider : existing.provider ≠ submitted.ledger.provider
  · rw [if_pos otherProvider]
    exact nofun
  by_cases otherHost : existing.hostIdHash ≠ submitted.ledger.hostIdHash
  · rw [if_neg otherProvider, if_pos otherHost]
    exact nofun
  by_cases truncated : submitted.ledger.capturedTurnCount < existing.capturedTurnCount
  · rw [if_neg otherProvider, if_neg otherHost, if_pos truncated]
    exact nofun
  by_cases tooMany : 2 ^ 64 ≤ existing.capturedTurnCount
  · rw [if_neg otherProvider, if_neg otherHost, if_neg truncated, if_pos tooMany]
    exact nofun
  rw [if_neg otherProvider, if_neg otherHost, if_neg truncated, if_neg tooMany]
  by_cases none : existing.capturedTurnCount = 0
  · rw [if_pos none]
    split_ifs <;> exact nofun
  · have inRange : existing.capturedTurnCount - 1 < submitted.prefixHashes.length := by omega
    rw [if_neg none, getElem?_eq_getElem inRange]
    simp only
    split_ifs <;> exact nofun

theorem verifyAppend_returns (existing : ConversationLedger) (submitted : PreparedTranscript) :
    verifyAppend existing submitted ≠ .panicked := by
  unfold verifyAppend
  cases validateLedger existing with
  | error error => exact nofun
  | ok _ =>
    simp only
    cases valid : validatePreparedTranscript submitted with
    | error error => exact nofun
    | ok _ =>
      have counted : submitted.prefixHashes.length = submitted.ledger.capturedTurnCount := by
        unfold validatePreparedTranscript at valid
        split_ifs at valid with tooMany differ
        exact not_not.1 fun different => differ (.inr different)
      simp only
      exact compareTranscripts_returns counted

/-- A transcript is accepted exactly when it extends the stored one, from whose end it goes on. -/
theorem append_accepts_extensions {providerA hostA providerB hostB : Option String}
    {turnsA turnsB : List ConversationTurn} {a b : PreparedTranscript}
    (preparesA : prepareTranscript providerA hostA turnsA = .ok a)
    (preparesB : prepareTranscript providerB hostB turnsB = .ok b)
    (apart : Set.InjOn Sha256.digest (hashedBy a ∪ hashedBy b)) :
    (∀ decision, verifyAppend a.ledger b = .returned (.ok decision)
        ↔ Extends a b ∧ decision = if b.turns.length = a.turns.length then .unchanged
          else .appendFrom a.turns.length)
      ∧ ∀ existing submitted, verifyAppend existing submitted ≠ .panicked := by
  have old := prepared_of_prepareTranscript preparesA
  have new := prepared_of_prepareTranscript preparesB
  refine ⟨fun decision => ?_, verifyAppend_returns⟩
  rw [verifyAppend, validateLedger_prepared old]
  simp only
  rw [validatePreparedTranscript_prepared new]
  exact compareTranscripts_prepared old new apart decision

def hello : ConversationTurn := ⟨.user, ⟨"Hello", by decide⟩, some "turn-1", none⟩

def answer : ConversationTurn := ⟨.assistant, ⟨"Hi", by decide⟩, none, none⟩

def transcriptOf (turns : List ConversationTurn) : PreparedTranscript :=
  match prepareTranscript (some "claude") none turns with
  | .ok transcript => transcript
  | .error _ => ⟨[], [], ⟨none, none, 0, "", ""⟩⟩

theorem append_accepts_extensions_answer :
    prepareTranscript (some "claude") none [hello] = .ok (transcriptOf [hello])
      ∧ prepareTranscript (some "claude") none [hello, answer] = .ok (transcriptOf [hello, answer])
      ∧ verifyAppend (transcriptOf [hello]).ledger (transcriptOf [hello, answer])
        = .returned (.ok (.appendFrom 1)) := by
  have first : prepareTranscript (some "claude") none [hello] = .ok (transcriptOf [hello]) := rfl
  have second : prepareTranscript (some "claude") none [hello, answer]
      = .ok (transcriptOf [hello, answer]) := rfl
  have turns : (transcriptOf [hello]).turns = (transcriptOf [hello, answer]).turns.take 1
      ∧ (transcriptOf [hello, answer]).turns.length = 2 := ⟨rfl, rfl⟩
  have distinct : (([0, 1, 2].map fun count =>
      prefixMessage ((transcriptOf [hello, answer]).turns.take count)).map
        Sha256.digest).Nodup := by
    decide +kernel
  have among : ∀ count, prefixMessage ((transcriptOf [hello, answer]).turns.take count)
      ∈ [0, 1, 2].map fun count =>
        prefixMessage ((transcriptOf [hello, answer]).turns.take count) := by
    intro count
    rw [mem_map]
    by_cases small : count ≤ 2
    · exact ⟨count, by simp; omega, rfl⟩
    · refine ⟨2, by simp, ?_⟩
      rw [take_of_length_le (by omega), take_of_length_le (by omega)]
  have apart : Set.InjOn Sha256.digest
      (hashedBy (transcriptOf [hello]) ∪ hashedBy (transcriptOf [hello, answer])) := by
    have isAmong : ∀ message ∈ hashedBy (transcriptOf [hello])
        ∪ hashedBy (transcriptOf [hello, answer]), message ∈ [0, 1, 2].map fun count =>
          prefixMessage ((transcriptOf [hello, answer]).turns.take count) := by
      rintro message (⟨count, isMessage⟩ | ⟨count, isMessage⟩)
      · rw [isMessage, turns.1, take_take]
        exact among _
      · rw [isMessage]
        exact among _
    intro left isLeft right isRight same
    exact inj_on_of_nodup_map distinct (isAmong left isLeft) (isAmong right isRight) same
  refine ⟨first, second, ?_⟩
  apply ((append_accepts_extensions first second apart).1 (.appendFrom 1)).2
  have lengths : (transcriptOf [hello, answer]).turns.length ≠ (transcriptOf [hello]).turns.length
      ∧ (transcriptOf [hello]).turns.length = 1 := by
    rw [turns.1, length_take, turns.2]
    decide
  have ledgers : (transcriptOf [hello]).ledger.provider
        = (transcriptOf [hello, answer]).ledger.provider
      ∧ (transcriptOf [hello]).ledger.hostIdHash
        = (transcriptOf [hello, answer]).ledger.hostIdHash := ⟨rfl, rfl⟩
  refine ⟨⟨ledgers.1, ledgers.2, ?_⟩, ?_⟩
  · rw [turns.1, map_take]
    exact take_prefix _ _
  · rw [if_neg lengths.1, lengths.2]

end Clepsydra.Vault.Conversation
