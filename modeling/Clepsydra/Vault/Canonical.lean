import Clepsydra.Library.Trim

/-!
Owns: the lookup keys of the vault. Page identifiers and their text forms, the
canonical name of a title or file name, and the pair of keys a link target is
matched against.
-/

namespace Clepsydra.Vault

open Library List String
open Library.Trim (Tight)

/-! ### Texts -/

structure Unicode where
  nfc : String → String
  toLowercase : String → String

/-- The characters with the `White_Space` property. -/
def isWhitespace (character : Char) : Bool :=
  let code := character.toNat
  (9 ≤ code && code ≤ 13) || code == 32 || code == 0x85 || code == 0xA0 || code == 0x1680
    || (0x2000 ≤ code && code ≤ 0x200A) || code == 0x2028 || code == 0x2029 || code == 0x202F
    || code == 0x205F || code == 0x3000

theorem toLower_cases (character : Char) : character.toLower = character
      ∨ (65 ≤ character.toNat ∧ character.toNat ≤ 90
        ∧ character.toLower.toNat = character.toNat + 32) := by
  unfold Char.toLower
  split_ifs with isUpper
  · refine .inr ?_
    have ⟨low, high⟩ := isUpper
    have l : 65 ≤ character.toNat := low
    have h : character.toNat ≤ 90 := high
    refine ⟨l, h, ?_⟩
    show (character.val + 32).toNat = _
    rw [UInt32.toNat_add]
    show (character.toNat + 32) % 2 ^ 32 = _
    omega
  · exact .inl rfl

theorem isWhitespace_toLower (character : Char) :
    isWhitespace character.toLower = isWhitespace character := by
  rcases toLower_cases character with same | ⟨low, high, isLower⟩
  · rw [same]
  · unfold isWhitespace
    rw [isLower]
    grind

/-- `char::is_control`. -/
def isControl (character : Char) : Bool :=
  character.toNat < 0x20 || (0x7F ≤ character.toNat && character.toNat < 0xA0)

/-- `str::trim`. -/
def trim (text : String) : String := String.ofList
    ((text.toList.dropWhile isWhitespace).reverse.dropWhile isWhitespace).reverse

theorem toList_trim (text : String) : (trim text).toList = Trim.trim isWhitespace text.toList := by
  rw [trim, toList_ofList]
  rfl

theorem trim_eq_self_iff (text : String) : trim text = text ↔ Tight isWhitespace text.toList := by
  rw [← toList_inj, toList_trim, Trim.trim_eq_self_iff]

theorem trim_trim (text : String) : trim (trim text) = trim text := by
  rw [trim_eq_self_iff, toList_trim]
  exact Trim.tight_trim text.toList

/-- `str::strip_prefix`. -/
def stripStart (start text : String) : Option String :=
  if start.toList.isPrefixOf text.toList then
    some (String.ofList (text.toList.drop start.toList.length))
  else
    none

theorem append_of_stripStart {start text rest : String}
    (stripped : stripStart start text = some rest) : text = start ++ rest := by
  unfold stripStart at stripped
  by_cases starts : start.toList.isPrefixOf text.toList = true
  · rw [if_pos starts] at stripped
    have ⟨others, joined⟩ := isPrefixOf_iff_prefix.1 starts
    obtain rfl := Option.some.inj stripped
    apply toList_inj.1
    rw [toList_append, toList_ofList, ← joined, drop_left]
  · rw [if_neg starts] at stripped
    exact nomatch stripped

/-- `str::strip_suffix`. -/
def stripEnd (ending text : String) : Option String :=
  if ending.toList.isSuffixOf text.toList then
    some (String.ofList (text.toList.take (text.toList.length - ending.toList.length)))
  else
    none

theorem append_of_stripEnd {ending text rest : String}
    (stripped : stripEnd ending text = some rest) : text = rest ++ ending := by
  unfold stripEnd at stripped
  by_cases ends : ending.toList.isSuffixOf text.toList = true
  · rw [if_pos ends] at stripped
    have ⟨others, joined⟩ := isSuffixOf_iff_suffix.1 ends
    obtain rfl := Option.some.inj stripped
    apply toList_inj.1
    rw [toList_append, toList_ofList, ← joined, List.length_append, Nat.add_sub_cancel, take_left]
  · rw [if_neg ends] at stripped
    exact nomatch stripped

/-- `previous` says whether the character before was whitespace. -/
def collapseWhitespace (previous : Bool) : List Char → List Char
  | [] => []
  | character :: rest =>
    if isWhitespace character then
      if previous then collapseWhitespace true rest else ' ' :: collapseWhitespace true rest
    else
      character :: collapseWhitespace false rest

/-- `CanonicalName::new`: NFC, lowercase, collapsed and trimmed whitespace, and no
`.md` ending. -/
def canonicalName (unicode : Unicode) (input : String) : String :=
  let lowered := unicode.toLowercase (unicode.nfc input)
  let trimmed := trim (String.ofList (collapseWhitespace false lowered.toList))
  (stripEnd ".md" trimmed).getD trimmed

/-! ### Identifiers -/

structure Uuid where
  digits : List (Fin 16)
  length_digits : digits.length = 32
deriving DecidableEq

def hexDigit (character : Char) : Option (Fin 16) :=
  let code := character.toNat
  if 48 ≤ code ∧ code ≤ 57 then some (Fin.ofNat 16 (code - 48))
  else if 97 ≤ code ∧ code ≤ 102 then some (Fin.ofNat 16 (code - 87))
  else if 65 ≤ code ∧ code ≤ 70 then some (Fin.ofNat 16 (code - 55))
  else none

def Uuid.repeated (digit : Nat) : Uuid :=
  ⟨List.replicate 32 (Fin.ofNat 16 digit), List.length_replicate⟩

def hexChar (digit : Fin 16) : Char :=
  if digit.val < 10 then Char.ofNat (48 + digit.val) else Char.ofNat (87 + digit.val)

/-- The lowercase hyphenated text, as `Uuid::to_string` writes it. -/
def Uuid.toText (id : Uuid) : String :=
  let characters := id.digits.map hexChar
  String.ofList
    (characters.take 8 ++ '-' :: (characters.drop 8).take 4 ++ '-' :: (characters.drop 12).take 4
      ++ '-' :: (characters.drop 16).take 4 ++ '-' :: characters.drop 20)

def Uuid.ofHex (characters : List Char) : Option Uuid :=
  match characters.mapM hexDigit with
  | some digits => if length : digits.length = 32 then some ⟨digits, length⟩ else none
  | none => none

def Uuid.ofHyphenated (characters : List Char) : Option Uuid :=
  if characters[8]? = some '-' ∧ characters[13]? = some '-' ∧ characters[18]? = some '-'
      ∧ characters[23]? = some '-' then
    Uuid.ofHex (characters.take 8 ++ (characters.drop 9).take 4 ++ (characters.drop 14).take 4
        ++ (characters.drop 19).take 4 ++ characters.drop 24)
  else
    none

/-- `Uuid::parse_str`: plain, hyphenated, braced and URN forms. -/
def Uuid.parse (text : String) : Option Uuid :=
  let characters := text.toList
  if characters.length = 32 then Uuid.ofHex characters
  else if characters.length = 36 then Uuid.ofHyphenated characters
  else if characters.length = 38 ∧ characters.head? = some '{' ∧ characters.getLast? = some '}' then
    Uuid.ofHyphenated (characters.tail.dropLast)
  else if characters.length = 45 ∧ characters.take 9 = "urn:uuid:".toList then
    Uuid.ofHyphenated (characters.drop 9)
  else none

theorem hexDigit_hexChar : ∀ digit : Fin 16, hexDigit (hexChar digit) = some digit := by decide

theorem Uuid.ofHex_digits (id : Uuid) : Uuid.ofHex (id.digits.map hexChar) = some id := by
  have read : (id.digits.map hexChar).mapM hexDigit = some id.digits := by
    induction id.digits with
    | nil => rfl
    | cons digit rest ih =>
      rw [map_cons, mapM_cons, hexDigit_hexChar, ih]
      rfl
  unfold Uuid.ofHex
  rw [read]
  simp only [id.length_digits, dite_true]

theorem Uuid.ofHyphenated_groups {first second third fourth fifth : List Char}
    (firstLength : first.length = 8) (secondLength : second.length = 4)
    (thirdLength : third.length = 4) (fourthLength : fourth.length = 4) :
    Uuid.ofHyphenated (first ++ '-' :: second ++ '-' :: third ++ '-' :: fourth ++ '-' :: fifth) =
      Uuid.ofHex (first ++ second ++ third ++ fourth ++ fifth) := by
  unfold Uuid.ofHyphenated
  rw [if_pos]
  · simp (disch := omega) [drop_append, drop_of_length_le, firstLength,
      secondLength, thirdLength, fourthLength]
  · simp [getElem?_append, firstLength, secondLength, thirdLength, fourthLength]

theorem Uuid.parse_toText (id : Uuid) : Uuid.parse id.toText = some id := by
  have length : (id.digits.map hexChar).length = 32 := by rw [List.length_map, id.length_digits]
  have whole := Uuid.ofHex_digits id
  unfold Uuid.parse Uuid.toText
  generalize id.digits.map hexChar = characters at length whole ⊢
  simp only [toList_ofList]
  rw [if_neg (by simp; omega), if_pos (by simp; omega), Uuid.ofHyphenated_groups (by simp; omega)
    (by simp; omega) (by simp; omega) (by simp; omega)]
  rw [← whole]
  congr 1
  have joined : ∀ start count, (characters.drop start).take count ++ characters.drop (start + count) =
      characters.drop start := by
    intro start count
    rw [← drop_drop, take_append_drop]
  rw [List.append_assoc, List.append_assoc, List.append_assoc, joined 16 4, joined 12 4, joined 8 4,
    take_append_drop]
/-! ### Link targets -/

/-- The two values the indexed `links_to` predicate compares. -/
structure LinksToTarget where
  targetId : String
  targetCanonical : String

/-- `normalize_links_to_target`. -/
def normalizeLinksToTarget (unicode : Unicode) (value : String) : LinksToTarget where
  targetId := ((Uuid.parse value).map Uuid.toText).getD value
  targetCanonical := canonicalName unicode value

end Clepsydra.Vault
