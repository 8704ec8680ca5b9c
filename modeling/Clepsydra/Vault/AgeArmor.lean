import Clepsydra.Library.Bytes
import Clepsydra.Library.Fallible
import Clepsydra.Library.Utf8

/-!
Owns: the armor of an encrypted page body, its validation and its canonical form.

Proves: exactly what is accepted; the canonical form is the body with its line endings normalized.
-/

namespace Clepsydra.Vault.Armor

open Library Library.Fallible Library.Utf8 List

/-! ### Armor -/

def beginFence : List Char := "-----BEGIN AGE ENCRYPTED FILE-----".toList

def endFence : List Char := "-----END AGE ENCRYPTED FILE-----".toList

def endFenceLine : List Char := "-----END AGE ENCRYPTED FILE-----\n".toList

def ageHeader : List UInt8 := asBytes "age-encryption.org/v1\n".toList

def armorLineWidth : Nat := 64

def maxAgeArmorBytes : Nat := 2 * 1024 * 1024

inductive EncryptionError where
  | bodyTooLarge
  | invalidArmor
  | invalidBase64
  | invalidAgeHeader
deriving DecidableEq

def EncryptionError.message : EncryptionError → String
  | .bodyTooLarge => "encrypted body exceeds the maximum accepted size"
  | .invalidArmor => "encrypted body is not one canonical age armor block"
  | .invalidBase64 => "encrypted body payload is not canonical Base64"
  | .invalidAgeHeader => "encrypted body payload is not an age v1 file"

/-- `BASE64_STANDARD`: the standard alphabet with padding, read back by the crate. -/
structure Base64Standard where
  decode : List Char → Option (List UInt8)
  decode_encode : ∀ bytes, decode (Base64.btoa bytes) = some bytes

def Base64Standard.encode (_ : Base64Standard) : List UInt8 → List Char := Base64.btoa

variable (crate : Base64Standard)

/-! ### Validation -/

/-- `replace("\r\n", "\n")`. -/
def replaceCrlf : List Char → List Char
  | '\r' :: '\n' :: rest => '\n' :: replaceCrlf rest
  | character :: rest => character :: replaceCrlf rest
  | [] => []

def normalized (body : List Char) (normalizeCrlf : Bool) : Except EncryptionError (List Char) :=
  if normalizeCrlf && body.contains '\r' then
    if (replaceCrlf body).contains '\r' then .error .invalidArmor else .ok (replaceCrlf body)
  else .ok body

def payloadOf (body : List Char) : Except EncryptionError (List Char) := do
  let payloadStart := byteLen beginFence + 1
  ensure (byteLen endFence + 2 ≤ byteLen body) .invalidArmor
  let payloadEnd := byteLen body - (byteLen endFence + 2)
  ensure (beginFence.isPrefixOf body && (asBytes body)[byteLen beginFence]? == some 10
    && payloadStart ≤ payloadEnd
    && (asBytes body)[payloadEnd]? == some 10
    && getFrom body (payloadEnd + 1) == some endFenceLine) .invalidArmor
  okOr .invalidArmor (getRange body payloadStart payloadEnd)

def hasArmorLines (lines : List (List Char)) : Bool := !lines.isEmpty
    && lines.all (fun line => !line.isEmpty)
    && (lines.take (lines.length - 1)).all (fun line => byteLen line == armorLineWidth)
    && lines.getLast?.all (fun line => byteLen line ≤ armorLineWidth)

def decodeCanonical (encoded : List Char) : Except EncryptionError (List UInt8) := do
  let decoded ← okOr .invalidBase64 (crate.decode encoded)
  ensure (crate.encode decoded == encoded) .invalidBase64
  pure decoded

def armored (encoded : List Char) : List Char :=
  beginFence ++ ['\n'] ++ ['\n'].intercalate (chunks armorLineWidth encoded) ++ ['\n'] ++ endFence
    ++ ['\n']

def canonicalizeAgeArmorInner (body : List Char) (normalizeCrlf : Bool) :
    Except EncryptionError (List Char) := do
  ensure (byteLen body ≤ maxAgeArmorBytes) .bodyTooLarge
  let body ← normalized body normalizeCrlf
  let payload ← payloadOf body
  let lines := payload.splitOn '\n'
  ensure (hasArmorLines lines) .invalidArmor
  let encoded := lines.flatten
  let decoded ← decodeCanonical crate encoded
  ensure (ageHeader.isPrefixOf decoded) .invalidAgeHeader
  ensure (byteLen (armored encoded) ≤ maxAgeArmorBytes) .bodyTooLarge
  pure (armored encoded)

def validateAgeArmor (body : List Char) : Except EncryptionError Unit := do
  ensure (!body.contains '\r') .invalidArmor
  let canonical ← canonicalizeAgeArmorInner crate body false
  ensure (canonical == body) .invalidArmor

def canonicalizeAgeArmor (body : List Char) : Except EncryptionError (List Char) :=
  canonicalizeAgeArmorInner crate body true

/-! ### What armor is -/

def IsAgeArmor (body : List Char) : Prop :=
  ∃ bytes, ageHeader <+: bytes ∧ body = armored (Base64.btoa bytes)

theorem btoa_plain (bytes : List UInt8) : ∀ character ∈ Base64.btoa bytes,
      character.utf8Size = 1 ∧ character ≠ '\n' ∧ character ≠ '\r' := by
  have digits : ∀ {value : Nat}, value < 64 → (Base64.digit value).utf8Size = 1
      ∧ Base64.digit value ≠ '\n' ∧ Base64.digit value ≠ '\r' := by
    intro value small
    revert value
    decide
  intro character member
  rcases mem_append.1 member with isDigit | isPadding
  · obtain ⟨value, isValue, rfl⟩ := mem_map.1 isDigit
    exact digits (Base64.sextets_small bytes value isValue)
  · rw [eq_of_mem_replicate isPadding]
    decide

theorem btoa_ne_nil {bytes : List UInt8} (header : ageHeader <+: bytes) :
    Base64.btoa bytes ≠ [] := by
  intro none
  have whole := header.length_le
  have long : ageHeader.length = 22 := by decide
  have length := Base64.length_btoa bytes
  rw [none, length_nil] at length
  omega

/-! ### The payload -/

theorem endFenceLine_eq : endFenceLine = endFence ++ ['\n'] := by decide

variable {body : List Char}

/-- **What is between the fences.** -/
theorem payloadOf_ok_iff {payload : List Char} : payloadOf body = .ok payload
      ↔ body = beginFence ++ ['\n'] ++ payload ++ ['\n'] ++ endFenceLine := by
  have lineLength : byteLen endFenceLine = byteLen endFence + 1 := by
    rw [endFenceLine_eq, byteLen_append]
    rfl
  have newlineLength : ∀ text, byteLen (text ++ ['\n']) = byteLen text + 1 := by
    intro text
    rw [byteLen_append]
    rfl
  unfold payloadOf
  simp only [bind_ok_iff, ensure_ok_iff, okOr_ok_iff, Bool.and_eq_true, beq_iff_eq,
    decide_eq_true_eq, isPrefixOf_iff_prefix]
  constructor
  · generalize byteLen body - (byteLen endFence + 2) = payloadEnd
    rintro ⟨_, long, _, ⟨⟨⟨⟨begins, newlineAfter⟩, _⟩, newlineBefore⟩, ends⟩, found⟩
    obtain ⟨first, last, isBody, isStart, isEnd⟩ := getRange_eq_some found
    have isFirst : first = beginFence ++ ['\n'] := by
      obtain ⟨after, isBegin⟩ := begins
      rw [← isBegin] at newlineAfter
      obtain ⟨rest, rfl⟩ := newline_of_getElem? newlineAfter
      have sameBody : first ++ (payload ++ last) = (beginFence ++ ['\n']) ++ rest := by
        rw [← append_assoc, ← isBody, ← isBegin, append_assoc, singleton_append]
      exact (append_inj_of_byteLen sameBody (by rw [isStart, newlineLength])).1
    obtain ⟨before, isBefore, beforeLength⟩ := getFrom_eq_some_iff.1 ends
    rw [isBefore] at newlineBefore
    obtain ⟨whole, rfl, wholeLength⟩ := newline_of_getElem?_last beforeLength newlineBefore
    have sameBody : whole ++ (['\n'] ++ endFenceLine) = (first ++ payload) ++ last := by
      rw [← append_assoc, ← isBefore, isBody]
    have isWhole := (append_inj_of_byteLen sameBody (by rw [wholeLength, byteLen_append, isEnd])).1
    rw [isBefore, isWhole, isFirst]
  · rintro rfl
    have length : byteLen (beginFence ++ ['\n'] ++ payload ++ ['\n'] ++ endFenceLine)
        - (byteLen endFence + 2) = byteLen (beginFence ++ ['\n'] ++ payload) := by
      rw [byteLen_append _ endFenceLine, newlineLength, lineLength]
      omega
    rw [length]
    refine ⟨(), ?_, (), ⟨⟨⟨⟨?_, ?_⟩, ?_⟩, ?_⟩, ?_⟩, ?_⟩
    · rw [byteLen_append _ endFenceLine, newlineLength, lineLength]
      omega
    · simp only [append_assoc]
      exact prefix_append _ _
    · simp only [append_assoc, singleton_append]
      exact getElem?_newline _ _
    · rw [byteLen_append _ payload, newlineLength]
      omega
    · rw [append_assoc _ ['\n'], singleton_append]
      exact getElem?_newline _ _
    · exact getFrom_eq_some_iff.2 ⟨_, rfl, newlineLength _⟩
    · have found := getRange_append (beginFence ++ ['\n']) payload (['\n'] ++ endFenceLine)
      rw [newlineLength, ← append_assoc] at found
      rw [byteLen_append _ payload, newlineLength]
      exact found

/-! ### The lines -/

/-- **The lines of a payload.** Where they hold an encoding, they are it cut at the width. -/
theorem hasArmorLines_iff {lines : List (List Char)} {bytes : List UInt8}
    (encoding : lines.flatten = Base64.btoa bytes) :
    hasArmorLines lines = true
      ↔ lines ≠ [] ∧ lines = chunks armorLineWidth (Base64.btoa bytes) := by
  have lineLength : ∀ line ∈ lines, byteLen line = line.length := by
    intro line member
    apply byteLen_eq_length
    intro character inLine
    have inEncoding : character ∈ Base64.btoa bytes := encoding ▸
      mem_flatten.2 ⟨line, member, inLine⟩
    exact (btoa_plain bytes character inEncoding).1
  have positive : 0 < armorLineWidth := by decide
  have checks : hasArmorLines lines = true ↔ lines ≠ [] ∧ (∀ line ∈ lines, line ≠ [])
      ∧ (∀ line ∈ lines.dropLast, byteLen line = armorLineWidth)
      ∧ ∀ line ∈ lines.getLast?, byteLen line ≤ armorLineWidth := by
    rw [hasArmorLines, ← dropLast_eq_take]
    simp [Option.all_eq_true, and_assoc]
  rw [checks]
  constructor
  · rintro ⟨some, nonempty, whole, last⟩
    refine ⟨some, ?_⟩
    rw [← encoding]
    refine (chunks_flatten ?_ ?_ positive).symm
    · intro line member
      rw [← lineLength line (dropLast_subset _ member)]
      exact whole line member
    · intro line isLast
      have member := mem_of_getLast? isLast
      refine ⟨nonempty line member, ?_⟩
      rw [← lineLength line member]
      exact last line isLast
  · rintro ⟨some, isChunks⟩
    obtain ⟨whole, last, _⟩ := shape_chunks positive (Base64.btoa bytes)
    rw [← isChunks] at whole last
    refine ⟨some, ?_, ?_, ?_⟩
    · intro line member
      rw [← dropLast_append_getLast some, mem_append, mem_singleton] at member
      rcases member with inside | rfl
      · intro none
        have isWhole := whole line inside
        rw [none, length_nil] at isWhole
        omega
      · exact (last _ (getLast?_eq_getLast_of_ne_nil some)).1
    · intro line member
      rw [lineLength line (dropLast_subset _ member)]
      exact whole line member
    · intro line isLast
      rw [lineLength line (mem_of_getLast? isLast)]
      exact (last line isLast).2

/-! ### Line endings -/

theorem not_mem_intercalate {separator : List Char} {lines : List (List Char)} {character : Char}
    (notSeparator : character ∉ separator) (absent : ∀ line ∈ lines, character ∉ line) :
    character ∉ separator.intercalate lines := by
  induction lines with
  | nil => exact not_mem_nil
  | cons first rest ih =>
    rw [forall_mem_cons] at absent
    cases rest with
    | nil =>
      rw [intercalate_singleton]
      exact absent.1
    | cons second rest =>
      rw [intercalate_cons_cons]
      simp only [mem_append, not_or]
      exact ⟨⟨absent.1, notSeparator⟩, ih absent.2⟩

theorem not_mem_armored (bytes : List UInt8) : '\r' ∉ armored (Base64.btoa bytes) := by
  have fences : '\r' ∉ beginFence ∧ '\r' ∉ endFence := by decide
  intro member
  simp only [armored, mem_append, mem_singleton, fences.1, fences.2, false_or,
    or_false, show ¬ '\r' = '\n' by decide] at member
  refine not_mem_intercalate (by decide) (fun line isLine inLine => ?_) member
  have inEncoding : '\r' ∈ Base64.btoa bytes := by
    rw [← flatten_chunks (show 0 < armorLineWidth by decide) (Base64.btoa bytes)]
    exact mem_flatten.2 ⟨line, isLine, inLine⟩
  exact (btoa_plain bytes '\r' inEncoding).2.2 rfl

theorem replaceCrlf_of_not_mem (absent : '\r' ∉ body) :
    replaceCrlf body = body := by
  induction body using replaceCrlf.induct with
  | case1 rest _ => exact absurd mem_cons_self absent
  | case2 character rest _ ih =>
    rw [mem_cons, not_or] at absent
    rw [replaceCrlf, ih absent.2]
    exact fun _ isReturn => absurd isReturn.symm absent.1
  | case3 => rfl

theorem byteLen_replaceCrlf (body : List Char) : byteLen (replaceCrlf body) ≤ byteLen body := by
  induction body using replaceCrlf.induct with
  | case1 rest ih =>
    simp only [replaceCrlf, byteLen_cons]
    omega
  | case2 character rest other ih =>
    rw [replaceCrlf, byteLen_cons, byteLen_cons]
    · omega
    · exact other
  | case3 => exact Nat.le_refl 0

theorem normalized_true_iff {text : List Char} :
    normalized body true = .ok text ↔ text = replaceCrlf body ∧ '\r' ∉ text := by
  unfold normalized
  by_cases present : '\r' ∈ body
  · rw [if_pos (by simpa using present)]
    by_cases left : '\r' ∈ replaceCrlf body
    · rw [if_pos (by simpa using left)]
      constructor
      · exact nofun
      · rintro ⟨rfl, absent⟩
        exact absurd left absent
    · rw [if_neg (by simpa using left), Except.ok.injEq]
      constructor
      · rintro rfl
        exact ⟨rfl, left⟩
      · exact fun isText => isText.1.symm
  · rw [if_neg (by simpa using present), replaceCrlf_of_not_mem present, Except.ok.injEq]
    constructor
    · rintro rfl
      exact ⟨rfl, present⟩
    · exact fun isText => isText.1.symm

theorem byteLen_normalized {text : List Char} {normalizeCrlf : Bool}
    (isText : normalized body normalizeCrlf = .ok text) : byteLen text ≤ byteLen body := by
  cases normalizeCrlf with
  | false =>
    obtain rfl : body = text := Except.ok.inj isText
    exact Nat.le_refl _
  | true =>
    rw [(normalized_true_iff.1 isText).1]
    exact byteLen_replaceCrlf body

/-! ### Acceptance -/

/-- **The canonical form** is the normalized body, where that is the armor of an age file. -/
theorem canonicalizeAgeArmorInner_ok_iff {canonical : List Char} {normalizeCrlf : Bool} :
    canonicalizeAgeArmorInner crate body normalizeCrlf = .ok canonical
      ↔ byteLen body ≤ maxAgeArmorBytes ∧ normalized body normalizeCrlf = .ok canonical
        ∧ IsAgeArmor canonical := by
  have positive : 0 < armorLineWidth := by decide
  simp only [canonicalizeAgeArmorInner, decodeCanonical, bind_ok_iff, ensure_ok_iff,
    okOr_ok_iff, pure, Except.pure, Except.ok.injEq, payloadOf_ok_iff, beq_iff_eq,
    decide_eq_true_eq, isPrefixOf_iff_prefix]
  constructor
  · rintro ⟨_, short, text, isText, payload, isArmor, _, hasLines, bytes,
      ⟨decoded, _, _, isEncoding, rfl⟩, _, header, _, _, rfl⟩
    have lines_eq := ((hasArmorLines_iff isEncoding.symm).1 hasLines).2
    have isPayload : ['\n'].intercalate (chunks armorLineWidth (Base64.btoa decoded))
        = payload := by
      rw [← lines_eq]
      exact intercalate_splitOn '\n'
    have isText' : armored (payload.splitOn '\n').flatten = text := by
      rw [← isEncoding, isArmor, armored, Base64Standard.encode, isPayload, endFenceLine_eq]
      simp only [append_assoc]
    rw [isText']
    refine ⟨short, isText, decoded, header, ?_⟩
    rw [← isText', ← isEncoding]
    rfl
  · rintro ⟨short, isText, bytes, header, rfl⟩
    have some := (shape_chunks positive (Base64.btoa bytes)).2.2 (btoa_ne_nil header)
    have plain : ∀ line ∈ chunks armorLineWidth (Base64.btoa bytes), '\n' ∉ line := by
      intro line member inLine
      have inEncoding : '\n' ∈ Base64.btoa bytes := by
        rw [← flatten_chunks positive (Base64.btoa bytes)]
        exact mem_flatten.2 ⟨line, member, inLine⟩
      exact (btoa_plain bytes '\n' inEncoding).2.1 rfl
    have lines_eq := splitOn_intercalate '\n' plain some
    have encoding : (chunks armorLineWidth (Base64.btoa bytes)).flatten = Base64.btoa bytes :=
      flatten_chunks positive _
    refine ⟨(), short, _, isText, ['\n'].intercalate (chunks armorLineWidth (Base64.btoa bytes)),
      ?_, (), ?_, bytes, ⟨bytes, ?_, (), ?_, rfl⟩, (), header, (), ?_, ?_⟩
    · rw [armored, endFenceLine_eq]
      simp only [append_assoc]
    · rw [lines_eq]
      exact (hasArmorLines_iff encoding).2 ⟨some, rfl⟩
    · rw [lines_eq, encoding]
      exact crate.decode_encode bytes
    · rw [lines_eq, encoding]
      rfl
    · rw [lines_eq, encoding]
      exact Nat.le_trans (byteLen_normalized isText) short
    · rw [lines_eq, encoding]

theorem validateAgeArmor_ok_iff :
    validateAgeArmor crate body = .ok () ↔ byteLen body ≤ maxAgeArmorBytes ∧ IsAgeArmor body := by
  simp only [validateAgeArmor, bind_ok_iff, ensure_ok_iff, beq_iff_eq,
    canonicalizeAgeArmorInner_ok_iff]
  constructor
  · rintro ⟨_, _, _, ⟨short, _, isArmor⟩, rfl⟩
    exact ⟨short, isArmor⟩
  · rintro ⟨short, isArmor⟩
    refine ⟨(), ?_, body, ⟨short, rfl, isArmor⟩, rfl⟩
    obtain ⟨bytes, _, rfl⟩ := isArmor
    simpa using not_mem_armored bytes

/-- **Exactly canonical armor is accepted**: that of age files that are not too long. A canonical
form is the body with its line endings normalized. -/
theorem ageArmor_exact : (∀ body, validateAgeArmor crate body = .ok ()
      ↔ byteLen body ≤ maxAgeArmorBytes ∧ IsAgeArmor body)
      ∧ ∀ body canonical, canonicalizeAgeArmor crate body = .ok canonical →
          canonical = replaceCrlf body ∧ validateAgeArmor crate canonical = .ok ()
            ∧ canonicalizeAgeArmor crate canonical = .ok canonical := by
  refine ⟨fun _ => validateAgeArmor_ok_iff crate, ?_⟩
  intro body canonical accepted
  have ⟨short, isText, isArmor⟩ := (canonicalizeAgeArmorInner_ok_iff crate).1 accepted
  have ⟨isReplaced, plain⟩ := normalized_true_iff.1 isText
  have shorter := Nat.le_trans (byteLen_normalized isText) short
  refine ⟨isReplaced, (validateAgeArmor_ok_iff crate).2 ⟨shorter, isArmor⟩, ?_⟩
  exact (canonicalizeAgeArmorInner_ok_iff crate).2 ⟨shorter,
    normalized_true_iff.2 ⟨(replaceCrlf_of_not_mem plain).symm, plain⟩, isArmor⟩

def atobCrate : Base64Standard := ⟨Base64.atob, Base64.atob_btoa⟩

def windowsBody : List Char :=
  beginFence ++ ['\r', '\n'] ++ Base64.btoa ageHeader ++ ['\r', '\n'] ++ endFence ++ ['\r', '\n']

theorem ageArmor_exact_of_windowsBody : armored (Base64.btoa ageHeader) = replaceCrlf windowsBody
      ∧ validateAgeArmor atobCrate (armored (Base64.btoa ageHeader)) = .ok ()
      ∧ canonicalizeAgeArmor atobCrate (armored (Base64.btoa ageHeader))
          = .ok (armored (Base64.btoa ageHeader)) :=
  (ageArmor_exact atobCrate).2 windowsBody _ (by decide)

end Clepsydra.Vault.Armor
