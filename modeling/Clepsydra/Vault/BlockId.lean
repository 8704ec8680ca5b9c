import Clepsydra.Library.Positional
import Clepsydra.Library.Utf8

/-!
Owns: block identifiers: a time and random characters in base 62, and what is read as one.

Proves: identifiers sort by their times, and what is generated is read back.
-/

namespace Clepsydra.Vault

open Library Library.Utf8 List

def BASE62 : List UInt8 :=
  asBytes "0123456789ABCDEFGHIJKLMNOPQRSTUVWXYZabcdefghijklmnopqrstuvwxyz".toList

def timestampChars : Nat := 7

def randomChars : Nat := 4

structure BlockId where
  inner : String
deriving DecidableEq, Repr

theorem length_BASE62 : BASE62.length = 62 := by decide

/-- `BASE62[(value % 62) as usize]` -/
def base62Char (value : Nat) : UInt8 :=
  BASE62.get ⟨value % 62, length_BASE62.symm ▸ Nat.mod_lt value (by decide)⟩

/-- The loop of `encode_base62`: the slots that are left, from the last one, and the filled ones. -/
def fillSlots : (slots value : Nat) → List UInt8 → List UInt8
  | 0, _, filled => filled
  | slots + 1, value, filled => fillSlots slots (value / 62) (base62Char value :: filled)

def encodeBase62 (value slots : Nat) : List UInt8 := fillSlots slots value []

def xorshift64 (state : UInt64) : UInt64 :=
  let state := state ^^^ (state <<< 13)
  let state := state ^^^ (state >>> 7)
  state ^^^ (state <<< 17)

/-- The draw is the next state; a state of zero is seeded first. -/
def nextRandom (seed state : UInt64) : UInt64 := xorshift64 (if state = 0 then seed else state)

def fillRandomBase62 (seed : UInt64) : (slots : Nat) → UInt64 → List UInt8
  | 0, _ => []
  | slots + 1, state =>
    let draw := nextRandom seed state
    base62Char draw.toNat :: fillRandomBase62 seed slots draw

/-- `BlockId::generate`, at a time in milliseconds; nothing if the bytes were not UTF-8. -/
def BlockId.generate (ms : Nat) (seed state : UInt64) : Option BlockId :=
  (fromUtf8 (encodeBase62 (ms % 2 ^ 64) timestampChars
    ++ fillRandomBase62 seed randomChars state)).map fun text => ⟨String.ofList text⟩

def isAsciiAlphanumericByte (byte : UInt8) : Bool :=
  (48 ≤ byte && byte ≤ 57) || (65 ≤ byte && byte ≤ 90) || (97 ≤ byte && byte ≤ 122)

def BlockId.parse (s : String) : Option BlockId :=
  let len := s.utf8ByteSize
  if ¬(10 ≤ len ∧ len ≤ 12) then none
  else if ¬(asBytes s.toList).all isAsciiAlphanumericByte then none
  else some ⟨s⟩

/-! ### Order -/

theorem base62Char_lt {low high : Nat} (less : low < high) (fits : high < 62) :
    base62Char low < base62Char high := by
  have sorted : BASE62.Pairwise (· < ·) := by decide
  apply pairwise_iff_get.1 sorted
  show low % 62 < high % 62
  rwa [Nat.mod_eq_of_lt fits, Nat.mod_eq_of_lt (Nat.lt_trans less fits)]

theorem base62Char_mod (value : Nat) : base62Char (value % 62) = base62Char value := by
  simp only [base62Char, Nat.mod_mod]

theorem fillSlots_eq (slots value : Nat) (filled : List UInt8) :
    fillSlots slots value filled = positional base62Char 62 slots value ++ filled := by
  induction slots generalizing value filled with
  | zero => rfl
  | succ slots ih =>
    rw [fillSlots, ih, positional, base62Char_mod, append_assoc, singleton_append]

theorem encodeBase62_eq (value slots : Nat) :
    encodeBase62 value slots = positional base62Char 62 slots value := by
  rw [encodeBase62, fillSlots_eq, append_nil]

theorem encodeBase62_lt {low high slots : Nat} (less : low < high) (fits : high < 62 ^ slots) :
    encodeBase62 low slots < encodeBase62 high slots := by
  rw [encodeBase62_eq, encodeBase62_eq]
  exact positional_lt (fun _ _ => base62Char_lt) less fits

/-! ### Reading -/

theorem base62Char_mem (value : Nat) : base62Char value ∈ BASE62 := get_mem _ _

theorem mem_encodeBase62 {value slots : Nat} {byte : UInt8}
    (member : byte ∈ encodeBase62 value slots) : byte ∈ BASE62 := by
  rw [encodeBase62_eq] at member
  have ⟨index, isChar⟩ := mem_positional member
  exact isChar ▸ base62Char_mem index

theorem alphanumeric_of_mem {byte : UInt8} (member : byte ∈ BASE62) :
    isAsciiAlphanumericByte byte = true ∧ byte.toNat < 128 := by
  have each : BASE62.all (fun byte => isAsciiAlphanumericByte byte && byte.toNat < 128) = true := by
    decide
  have both := all_eq_true.1 each byte member
  rwa [Bool.and_eq_true, decide_eq_true_eq] at both

theorem asBytes_ofBytes {bytes : List UInt8} (ascii : ∀ byte ∈ bytes, byte.toNat < 128) :
    asBytes (bytes.map fun byte => Char.ofNat byte.toNat) = bytes := by
  induction bytes with
  | nil => rfl
  | cons byte rest ih =>
    rw [forall_mem_cons] at ascii
    have valid : byte.toNat.isValidChar := .inl (by omega)
    have isByte : (Char.ofNat byte.toNat).toNat = byte.toNat := by
      rw [Char.ofNat, dif_pos valid]
      rfl
    rw [map_cons, asBytes_cons, utf8EncodeChar_ascii (isByte.symm ▸ ascii.1), asciiByte, isByte,
      UInt8.ofNat_toNat, ih ascii.2, singleton_append]

/-- A time and four characters are text, and read as an identifier. -/
theorem parse_of_suffix (value : Nat) {suffix : List UInt8} (four : suffix.length = randomChars)
    (inAlphabet : ∀ byte ∈ suffix, byte ∈ BASE62) :
    ∃ text, fromUtf8 (encodeBase62 value timestampChars ++ suffix) = some text
      ∧ BlockId.parse (String.ofList text) = some ⟨String.ofList text⟩ := by
  have all : ∀ byte ∈ encodeBase62 value timestampChars ++ suffix,
      isAsciiAlphanumericByte byte = true ∧ byte.toNat < 128 := fun byte member =>
    alphanumeric_of_mem ((mem_append.1 member).elim mem_encodeBase62 (inAlphabet byte))
  have length : (encodeBase62 value timestampChars ++ suffix).length = 11 := by
    rw [length_append, encodeBase62_eq, length_positional, four]
    rfl
  generalize encodeBase62 value timestampChars ++ suffix = bytes at all length
  have isText := asBytes_ofBytes fun byte member => (all byte member).2
  refine ⟨bytes.map fun byte => Char.ofNat byte.toNat, ?_, ?_⟩
  · have decoded := fromUtf8_asBytes (bytes.map fun byte => Char.ofNat byte.toNat)
    rwa [isText] at decoded
  · have size := utf8ByteSize_ofList (bytes.map fun byte => Char.ofNat byte.toNat)
    rw [← length_asBytes, isText, length] at size
    rw [BlockId.parse, size, String.toList_ofList, isText, if_neg (by decide),
      if_neg (not_not_intro (all_eq_true.2 fun byte member => (all byte member).1))]

theorem fillRandomBase62_spec (seed : UInt64) (slots : Nat) (state : UInt64) :
    (fillRandomBase62 seed slots state).length = slots
      ∧ ∀ byte ∈ fillRandomBase62 seed slots state, byte ∈ BASE62 := by
  induction slots generalizing state with
  | zero => exact ⟨rfl, nofun⟩
  | succ slots ih =>
    have ⟨length, inAlphabet⟩ := ih (nextRandom seed state)
    exact ⟨congrArg Nat.succ length, forall_mem_cons.2 ⟨base62Char_mem _, inAlphabet⟩⟩

theorem parse_generate (ms : Nat) (seed state : UInt64) :
    ∃ id, BlockId.generate ms seed state = some id ∧ BlockId.parse id.inner = some id := by
  have ⟨four, inAlphabet⟩ := fillRandomBase62_spec seed randomChars state
  have ⟨text, isText, parsed⟩ := parse_of_suffix (ms % 2 ^ 64) four inAlphabet
  exact ⟨_, by rw [BlockId.generate, isText]; rfl, parsed⟩

/-- **Block identifiers sort by time**, and what is made of a time and four characters is read as
one. -/
theorem blockId_sorts_by_time :
    (∀ low high : Nat, low < high → high < 62 ^ 7 →
      encodeBase62 low timestampChars < encodeBase62 high timestampChars)
    ∧ (∀ first second : Nat, first < 62 ^ 7 → second < 62 ^ 7 →
      encodeBase62 first timestampChars = encodeBase62 second timestampChars → first = second)
    ∧ ∀ value < 62 ^ 7, ∀ suffix : List UInt8, suffix.length = 4 →
      (∀ byte ∈ suffix, byte ∈ BASE62) →
      ∃ text, fromUtf8 (encodeBase62 value timestampChars ++ suffix) = some text
        ∧ BlockId.parse (String.ofList text) = some ⟨String.ofList text⟩ := by
  refine ⟨fun low high less fits => encodeBase62_lt less fits, ?_, ?_⟩
  · intro first second firstFits secondFits same
    rcases Nat.lt_trichotomy first second with less | equal | more
    · exact absurd (same ▸ encodeBase62_lt less secondFits) (List.lt_irrefl _)
    · exact equal
    · exact absurd (same ▸ encodeBase62_lt more firstFits) (List.lt_irrefl _)
  · intro value _ suffix four inAlphabet
    exact parse_of_suffix value four inAlphabet

end Clepsydra.Vault
