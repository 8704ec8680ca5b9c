import Mathlib

/-!
Owns: texts addressed by the bytes of their UTF-8 encoding, as Rust's `str` is.

Proves: a text is cut at a byte exactly when its encoding is, and its bytes are read as that text.
-/

namespace Clepsydra.Library.Utf8

open List Option String

/-- `str::len`. -/
def byteLen (text : List Char) : Nat := (text.map Char.utf8Size).sum

/-- `str::as_bytes`. -/
def asBytes (text : List Char) : List UInt8 := text.flatMap String.utf8EncodeChar

/-- `str::split_at_checked`: nothing where the byte is not a character boundary. -/
def splitAtByte : List Char → Nat → Option (List Char × List Char)
  | text, 0 => some ([], text)
  | [], _ + 1 => none
  | character :: rest, bytes + 1 =>
    if bytes + 1 < character.utf8Size then none
    else
      (splitAtByte rest (bytes + 1 - character.utf8Size)).map fun parts =>
        (character :: parts.1, parts.2)

/-- `str::get(start..)`. -/
def getFrom (text : List Char) (start : Nat) : Option (List Char) :=
  (splitAtByte text start).map Prod.snd

/-- `str::get(start..stop)`. -/
def getRange (text : List Char) (start stop : Nat) : Option (List Char) :=
  if start ≤ stop then
    (splitAtByte text stop).bind fun parts => getFrom parts.1 start
  else none

/-- `str::from_utf8`. -/
def fromUtf8 (bytes : List UInt8) : Option (List Char) :=
  bytes.toByteArray.utf8Decode?.map Array.toList

def isSecond (first second : UInt8) : Bool :=
  if first = 0xE0 then 0xA0 ≤ second ∧ second ≤ 0xBF
  else if first = 0xED then 0x80 ≤ second ∧ second ≤ 0x9F
  else if first = 0xF0 then 0x90 ≤ second ∧ second ≤ 0xBF
  else if first = 0xF4 then 0x80 ≤ second ∧ second ≤ 0x8F
  else 0xE1 ≤ first ∧ first ≤ 0xF3 ∧ 0x80 ≤ second ∧ second ≤ 0xBF

def invalidLength : List UInt8 → Nat
  | first :: second :: rest =>
    if isSecond first second then
      match rest with
      | third :: _ => if 0xF0 ≤ first ∧ 0x80 ≤ third ∧ third ≤ 0xBF then 3 else 2
      | [] => 2
    else 1
  | _ => 1

def lossyChars : Nat → List UInt8 → List Char
  | 0, _ => []
  | _ + 1, [] => []
  | rounds + 1, first :: rest =>
    match (first :: rest).toByteArray.utf8DecodeChar? 0 with
    | some character =>
      character :: lossyChars rounds ((first :: rest).drop character.utf8Size)
    | none => '\uFFFD' :: lossyChars rounds ((first :: rest).drop (invalidLength (first :: rest)))

/-- `String::from_utf8_lossy`. -/
def fromUtf8Lossy (bytes : List UInt8) : List Char := lossyChars bytes.length bytes

/-! ### Lengths -/

variable {text : List Char}

@[simp] theorem byteLen_nil : byteLen [] = 0 := rfl

@[simp] theorem byteLen_cons (character : Char) (rest : List Char) :
    byteLen (character :: rest) = character.utf8Size + byteLen rest := by
  rw [byteLen, map_cons, sum_cons, byteLen]

@[simp] theorem byteLen_append (first second : List Char) :
    byteLen (first ++ second) = byteLen first + byteLen second := by
  rw [byteLen, map_append, sum_append, byteLen, byteLen]

theorem length_le_byteLen (text : List Char) : text.length ≤ byteLen text := by
  induction text with
  | nil => exact Nat.le_refl 0
  | cons character rest ih =>
    have positive := character.utf8Size_pos
    rw [length_cons, byteLen_cons]
    omega

theorem utf8ByteSize_ofList (text : List Char) :
    (String.ofList text).utf8ByteSize = byteLen text := by
  induction text with
  | nil => rfl
  | cons character rest ih =>
    rw [← singleton_append, ofList_append, utf8ByteSize_append, ih, byteLen_append]
    congr 1
    exact utf8ByteSize_singleton

theorem byteLen_eq_length (ascii : ∀ character ∈ text, character.utf8Size = 1) :
    byteLen text = text.length := by
  induction text with
  | nil => rfl
  | cons character rest ih =>
    rw [forall_mem_cons] at ascii
    rw [byteLen_cons, ih ascii.2, ascii.1, length_cons]
    omega

@[simp] theorem asBytes_append (first second : List Char) :
    asBytes (first ++ second) = asBytes first ++ asBytes second := flatMap_append

theorem length_asBytes (text : List Char) : (asBytes text).length = byteLen text := by
  induction text with
  | nil => rfl
  | cons character rest ih =>
    rw [asBytes, flatMap_cons, List.length_append, length_utf8EncodeChar, byteLen_cons]
    exact congrArg _ ih

/-! ### Cutting -/

variable {first second : List Char} {stop : Nat}

@[simp] theorem splitAtByte_zero (text : List Char) : splitAtByte text 0 = some ([], text) := by
  cases text <;> rfl

theorem splitAtByte_append (first second : List Char) :
    splitAtByte (first ++ second) (byteLen first) = some (first, second) := by
  induction first with
  | nil => exact splitAtByte_zero second
  | cons character rest ih =>
    have positive := character.utf8Size_pos
    obtain ⟨bytes, isSize⟩ : ∃ bytes, character.utf8Size + byteLen rest = bytes + 1 :=
      ⟨character.utf8Size + byteLen rest - 1, by omega⟩
    have left : bytes + 1 - character.utf8Size = byteLen rest := by omega
    rw [cons_append, byteLen_cons, isSize, splitAtByte, if_neg (by omega), left,
      ih]
    rfl

/-- **A text is cut at a byte** into two texts of which the first ends there. -/
theorem splitAtByte_eq_some_iff {bytes : Nat} :
    splitAtByte text bytes = some (first, second)
      ↔ text = first ++ second ∧ byteLen first = bytes := by
  constructor
  · induction text generalizing bytes first with
    | nil =>
      cases bytes with
      | zero =>
        intro cut
        obtain ⟨rfl, rfl⟩ := Prod.mk.inj (some.inj cut)
        exact ⟨rfl, rfl⟩
      | succ bytes => exact nofun
    | cons character rest ih =>
      cases bytes with
      | zero =>
        intro cut
        obtain ⟨rfl, rfl⟩ := Prod.mk.inj (some.inj cut)
        exact ⟨rfl, rfl⟩
      | succ bytes =>
        intro cut
        rw [splitAtByte] at cut
        by_cases inside : bytes + 1 < character.utf8Size
        · rw [if_pos inside] at cut
          exact nomatch cut
        · rw [if_neg inside, map_eq_some_iff] at cut
          have ⟨⟨before, after⟩, found, same⟩ := cut
          obtain ⟨rfl, rfl⟩ := Prod.mk.inj same
          have ⟨joined, isLength⟩ := ih found
          refine ⟨congrArg _ joined, ?_⟩
          rw [byteLen_cons, isLength]
          omega
  · rintro ⟨rfl, rfl⟩
    exact splitAtByte_append first second

theorem append_inj_of_byteLen {third fourth : List Char} (same : first ++ second = third ++ fourth)
    (sameLength : byteLen first = byteLen third) :
    first = third ∧ second = fourth := by
  have cut := splitAtByte_append first second
  rw [same, sameLength, splitAtByte_append] at cut
  have parts := Prod.mk.inj (some.inj cut)
  exact ⟨parts.1.symm, parts.2.symm⟩

theorem getFrom_eq_some_iff {rest : List Char} {start : Nat} :
    getFrom text start = some rest ↔ ∃ first, text = first ++ rest ∧ byteLen first = start := by
  rw [getFrom, map_eq_some_iff]
  constructor
  · rintro ⟨⟨first, second⟩, cut, rfl⟩
    exact ⟨first, splitAtByte_eq_some_iff.1 cut⟩
  · rintro ⟨first, parts⟩
    exact ⟨(first, rest), splitAtByte_eq_some_iff.2 parts, rfl⟩

theorem getRange_append (first middle last : List Char) :
    getRange (first ++ middle ++ last) (byteLen first) (byteLen first + byteLen middle)
      = some middle := by
  rw [getRange, if_pos (Nat.le_add_right _ _), ← byteLen_append, splitAtByte_append, bind_some]
  exact getFrom_eq_some_iff.2 ⟨first, rfl, rfl⟩

theorem getRange_eq_some {middle : List Char} {start : Nat}
    (found : getRange text start stop = some middle) :
    ∃ first last, text = first ++ middle ++ last ∧ byteLen first = start
      ∧ byteLen first + byteLen middle = stop := by
  unfold getRange at found
  by_cases ordered : start ≤ stop
  · rw [if_pos ordered, bind_eq_some_iff] at found
    have ⟨⟨before, last⟩, cut, inside⟩ := found
    obtain ⟨rfl, isStop⟩ := splitAtByte_eq_some_iff.1 cut
    have ⟨first, isBefore, isStart⟩ := getFrom_eq_some_iff.1 inside
    simp only at isBefore
    refine ⟨first, last, by rw [isBefore], isStart, ?_⟩
    rw [← isStop, isBefore, byteLen_append]
  · rw [if_neg ordered] at found
    exact nomatch found

/-! ### ASCII bytes -/

variable {ascii : Char}

def asciiByte (ascii : Char) : UInt8 := UInt8.ofNat ascii.toNat

theorem eq_of_mem_utf8EncodeChar {character : Char} (isAscii : ascii.toNat < 128)
    (member : asciiByte ascii ∈ String.utf8EncodeChar character) : character = ascii := by
  have back : ∀ {value : Nat}, value < 256 → asciiByte ascii = UInt8.ofNat value →
      value = ascii.toNat := by
    intro value small same
    have isValue := congrArg UInt8.toNat same
    rw [asciiByte, UInt8.toNat_ofNat_of_lt' (Nat.lt_trans isAscii (by decide)),
      UInt8.toNat_ofNat_of_lt' small] at isValue
    exact isValue.symm
  have high : ∀ {value : Nat}, 128 ≤ value → value < 256 →
      ¬asciiByte ascii = UInt8.ofNat value := by
    intro value large small same
    have := back small same
    omega
  unfold String.utf8EncodeChar at member
  dsimp only at member
  split_ifs at member with one two three
  · rw [mem_singleton] at member
    have isSame := back (by omega) member
    exact Char.ext (UInt32.toNat_inj.1 isSame)
  -- The bytes of a longer encoding are all from 128 on.
  all_goals
    simp only [mem_cons, not_mem_nil, or_false] at member
    exfalso
  · rcases member with isByte | isByte
    all_goals exact high (by omega) (by omega) isByte
  · rcases member with isByte | isByte | isByte
    all_goals exact high (by omega) (by omega) isByte
  · rcases member with isByte | isByte | isByte | isByte
    all_goals exact high (by omega) (by omega) isByte

theorem utf8Size_of_ascii (isAscii : ascii.toNat < 128) : ascii.utf8Size = 1 := by
  rw [Char.utf8Size_eq_one_iff]
  exact UInt32.le_iff_toNat_le.2 (Nat.le_of_lt_succ isAscii)

theorem concat_of_getElem?_last (isAscii : ascii.toNat < 128) (isStop : byteLen first = stop + 1)
    (isByte : (asBytes (first ++ second))[stop]? = some (asciiByte ascii)) :
    ∃ before, first = before ++ [ascii] ∧ byteLen before = stop := by
  rw [asBytes_append, getElem?_append_left (by rw [length_asBytes]; omega)] at isByte
  rcases eq_nil_or_concat first with rfl | ⟨before, character, rfl⟩
  · exact nomatch isByte
  · rw [concat_eq_append] at isStop isByte ⊢
    rw [byteLen_append, byteLen_cons, byteLen_nil] at isStop
    have positive := character.utf8Size_pos
    rw [asBytes_append, getElem?_append_right (by rw [length_asBytes]; omega)] at isByte
    have isLast : character = ascii := by
      have member := mem_of_getElem? isByte
      rw [asBytes, flatMap_cons, flatMap_nil, append_nil] at member
      exact eq_of_mem_utf8EncodeChar isAscii member
    refine ⟨before, by rw [isLast], ?_⟩
    rw [isLast, utf8Size_of_ascii isAscii] at isStop
    omega

theorem append_pair_of_getElem? (isAscii : ascii.toNat < 128) (isStop : byteLen first = stop + 2)
    (isByte : (asBytes (first ++ second))[stop]? = some (asciiByte ascii)) :
    ∃ before last, first = before ++ [ascii, last] := by
  rcases eq_nil_or_concat first with rfl | ⟨before, character, rfl⟩
  · exact nomatch isStop
  rw [concat_eq_append] at isStop isByte ⊢
  rw [byteLen_append, byteLen_cons, byteLen_nil] at isStop
  have positive := character.utf8Size_pos
  by_cases single : character.utf8Size = 1
  · rw [List.append_assoc] at isByte
    have ⟨earlier, isBefore, _⟩ :=
      concat_of_getElem?_last isAscii (by omega : byteLen before = stop + 1) isByte
    exact ⟨earlier, character, by rw [isBefore, List.append_assoc]; rfl⟩
  · -- The byte lies within the last character, which is then the ASCII one.
    rw [asBytes_append, asBytes_append, getElem?_append_left (by
        rw [List.length_append, length_asBytes, length_asBytes, byteLen_cons, byteLen_nil]
        omega),
      getElem?_append_right (by rw [length_asBytes]; omega)] at isByte
    have member := mem_of_getElem? isByte
    rw [asBytes, flatMap_cons, flatMap_nil, append_nil] at member
    have isLast := eq_of_mem_utf8EncodeChar isAscii member
    exact absurd (isLast ▸ utf8Size_of_ascii isAscii) single

theorem utf8EncodeChar_ascii (isAscii : ascii.toNat < 128) :
    String.utf8EncodeChar ascii = [asciiByte ascii] := by
  unfold String.utf8EncodeChar
  exact if_pos (Nat.le_of_lt_succ isAscii)

theorem getElem?_ascii (isAscii : ascii.toNat < 128) (first second : List Char) :
    (asBytes (first ++ ascii :: second))[byteLen first]? = some (asciiByte ascii) := by
  rw [asBytes_append, getElem?_append_right (Nat.le_of_eq (length_asBytes first)), length_asBytes,
    Nat.sub_self, asBytes, flatMap_cons, utf8EncodeChar_ascii isAscii]
  rfl

theorem eq_newline_of_mem {character : Char} (member : 10 ∈ String.utf8EncodeChar character) :
    character = '\n' :=
  @eq_of_mem_utf8EncodeChar '\n' character (by decide) member

theorem newline_of_getElem? (isByte : (asBytes (first ++ second))[byteLen first]? = some 10) :
    ∃ rest, second = '\n' :: rest := by
  rw [asBytes_append, getElem?_append_right (Nat.le_of_eq (length_asBytes first)), length_asBytes,
    Nat.sub_self] at isByte
  cases second with
  | nil => exact nomatch isByte
  | cons character rest =>
    have positive := character.utf8Size_pos
    rw [asBytes, flatMap_cons, getElem?_append_left
      (by rw [length_utf8EncodeChar]; exact positive)] at isByte
    exact ⟨rest, by rw [eq_newline_of_mem (mem_of_getElem? isByte)]⟩

theorem newline_of_getElem?_last (isStop : byteLen first = stop + 1)
    (isByte : (asBytes (first ++ second))[stop]? = some 10) :
    ∃ before, first = before ++ ['\n'] ∧ byteLen before = stop :=
  concat_of_getElem?_last (by decide) isStop isByte

theorem getElem?_newline (first second : List Char) :
    (asBytes (first ++ '\n' :: second))[byteLen first]? = some 10 :=
  getElem?_ascii (by decide) first second

/-! ### Decoding -/

theorem toByteArray_asBytes (text : List Char) : (asBytes text).toByteArray = text.utf8Encode := rfl

theorem asBytes_cons (character : Char) (rest : List Char) :
    asBytes (character :: rest) = String.utf8EncodeChar character ++ asBytes rest :=
  flatMap_cons

theorem fromUtf8_asBytes (text : List Char) : fromUtf8 (asBytes text) = some text := by
  rw [fromUtf8, toByteArray_asBytes, utf8Decode?_utf8Encode]
  rfl

theorem lossyChars_asBytes {rounds : Nat} (enough : text.length ≤ rounds) :
    lossyChars rounds (asBytes text) = text := by
  induction text generalizing rounds with
  | nil => cases rounds <;> rfl
  | cons character rest ih =>
    cases rounds with
    | zero => exact absurd enough (Nat.not_succ_le_zero _)
    | succ rounds =>
      have decodes : (asBytes (character :: rest)).toByteArray.utf8DecodeChar? 0
          = some character := by
        rw [toByteArray_asBytes, utf8DecodeChar?_utf8Encode_cons]
      have left : (asBytes (character :: rest)).drop character.utf8Size = asBytes rest := by
        rw [asBytes_cons, ← length_utf8EncodeChar, drop_left]
      have later := ih (Nat.le_of_succ_le_succ enough)
      cases bytes : asBytes (character :: rest) with
      | nil =>
        have positive := character.utf8Size_pos
        have length := length_asBytes (character :: rest)
        rw [bytes, length_nil, byteLen_cons] at length
        omega
      | cons first others =>
        rw [bytes] at decodes left
        rw [lossyChars]
        simp only [decodes, left, later]

theorem fromUtf8Lossy_asBytes (text : List Char) : fromUtf8Lossy (asBytes text) = text := by
  apply lossyChars_asBytes
  rw [length_asBytes]
  exact length_le_byteLen text

end Clepsydra.Library.Utf8
