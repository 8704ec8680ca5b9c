import Mathlib

/-!
Owns: what JavaScript takes for whitespace, and trimming; the escapes of a text in the path of an
address.

Proves: different texts have different escapes.
-/

namespace Clepsydra.Library

open List String

def isJsWhitespace (character : Char) : Bool :=
  let code := character.toNat
  (9 ≤ code && code ≤ 13) || code == 32 || code == 0xA0 || code == 0x1680
    || (0x2000 ≤ code && code ≤ 0x200A) || code == 0x2028 || code == 0x2029 || code == 0x202F
    || code == 0x205F || code == 0x3000 || code == 0xFEFF

/-- `String.prototype.trim`. -/
def jsTrim (text : String) : String := String.ofList
    ((text.toList.dropWhile isJsWhitespace).reverse.dropWhile isJsWhitespace).reverse

/-! ### Escapes -/

/-- The characters that `encodeURIComponent` leaves alone: digits, letters and `-_.!~*'()`. -/
def isUriUnescaped (character : Char) : Bool :=
  let code := character.toNat
  (48 ≤ code && code ≤ 57) || (65 ≤ code && code ≤ 90) || (97 ≤ code && code ≤ 122)
    || code == 33 || (39 ≤ code && code ≤ 42) || code == 45 || code == 46 || code == 95
    || code == 126

def upperHexDigit (value : Nat) : Char :=
  if value < 10 then Char.ofNat (48 + value) else Char.ofNat (55 + value)

def upperHexValue (digit : Char) : Nat :=
  if digit.toNat < 58 then digit.toNat - 48 else digit.toNat - 55

def percentEncoded (byte : UInt8) : List Char :=
  ['%', upperHexDigit (byte.toNat / 16), upperHexDigit (byte.toNat % 16)]

def encodeUriCharacter (character : Char) : List Char :=
  if isUriUnescaped character then [character]
  else (String.utf8EncodeChar character).flatMap percentEncoded

/-- `encodeURIComponent`. -/
def encodeURIComponent (text : String) : String :=
  String.ofList (text.toList.flatMap encodeUriCharacter)

def percentDecoded : List Char → List UInt8
  | '%' :: high :: low :: rest =>
    UInt8.ofNat (16 * upperHexValue high + upperHexValue low) :: percentDecoded rest
  | character :: rest => UInt8.ofNat character.toNat :: percentDecoded rest
  | [] => []

theorem upperHexValue_upperHexDigit {value : Nat} (small : value < 16) :
    upperHexValue (upperHexDigit value) = value := by
  decide +revert

theorem percentDecoded_percentEncoded (byte : UInt8) (rest : List Char) :
    percentDecoded (percentEncoded byte ++ rest) = byte :: percentDecoded rest := by
  have small := byte.toNat_lt
  have high : byte.toNat / 16 < 16 := by omega
  have low : byte.toNat % 16 < 16 := by omega
  show UInt8.ofNat (16 * _ + _) :: _ = _
  rw [upperHexValue_upperHexDigit high, upperHexValue_upperHexDigit low, Nat.div_add_mod]
  simp

theorem percentDecoded_flatMap (bytes : List UInt8) (rest : List Char) :
    percentDecoded (bytes.flatMap percentEncoded ++ rest) = bytes ++ percentDecoded rest := by
  induction bytes with
  | nil => rfl
  | cons byte bytes ih =>
    rw [flatMap_cons, List.append_assoc, percentDecoded_percentEncoded, ih, cons_append]

theorem isUriUnescaped_plain {character : Char} (unescaped : isUriUnescaped character) :
    character ≠ '%' ∧ character.toNat < 128 := by
  simp only [isUriUnescaped, Bool.or_eq_true, Bool.and_eq_true, decide_eq_true_eq,
    beq_iff_eq] at unescaped
  refine ⟨?_, by omega⟩
  rintro rfl
  simp at unescaped

theorem percentDecoded_encodeUriCharacter (character : Char) (rest : List Char) :
    percentDecoded (encodeUriCharacter character ++ rest) =
      String.utf8EncodeChar character ++ percentDecoded rest := by
  unfold encodeUriCharacter
  split
  · rename_i unescaped
    have ⟨plain, ascii⟩ := isUriUnescaped_plain unescaped
    have single : String.utf8EncodeChar character = [character.val.toUInt8] := by
      apply utf8EncodeChar_eq_singleton
      have small : character.val ≤ 0x7f := by
        rw [UInt32.le_iff_toNat_le]
        show character.toNat ≤ 127
        omega
      exact if_pos small
    rw [single, singleton_append, singleton_append,
      percentDecoded.eq_2 _ _ fun _ _ _ percent => absurd percent plain]
    rfl
  · exact percentDecoded_flatMap _ rest

theorem percentDecoded_encodeUri (text : List Char) :
    percentDecoded (text.flatMap encodeUriCharacter) = text.flatMap String.utf8EncodeChar := by
  induction text with
  | nil => rfl
  | cons character rest ih =>
    rw [flatMap_cons, percentDecoded_encodeUriCharacter, ih, flatMap_cons]

theorem encodeURIComponent_injective {left right : String}
    (same : encodeURIComponent left = encodeURIComponent right) : left = right := by
  have characters := ofList_injective same
  have bytes := congrArg percentDecoded characters
  rw [percentDecoded_encodeUri, percentDecoded_encodeUri] at bytes
  have encoded : left.toList.utf8Encode = right.toList.utf8Encode := by
    rw [List.utf8Encode, List.utf8Encode, bytes]
  rw [utf8Encode_toList, utf8Encode_toList] at encoded
  exact String.toByteArray_inj.1 encoded

end Clepsydra.Library
