import Mathlib

/-!
Owns: lists cut into pieces of one size, numbers as bytes, texts behind their lengths, and base64 as
browsers write and read it.

Proves: texts behind their lengths are told apart; what `btoa` writes `atob` reads back.
-/

namespace Clepsydra.Library

open List

/-! ### Pieces -/

section Pieces

variable {α : Type}

def piece (size : Nat) (list : List α) (index : Nat) : List α :=
  (list.drop (index * size)).take size

def pieceCount (size : Nat) (list : List α) : Nat := (list.length + size - 1) / size

theorem flatten_pieces (size : Nat) (list : List α) (count : Nat) :
    ((List.range count).map (piece size list)).flatten = list.take (count * size) := by
  induction count with
  | zero => simp
  | succ count ih =>
    rw [range_succ, map_append, flatten_append, ih, Nat.succ_mul, take_add]
    simp [piece]

variable {size : Nat}

theorem length_le_pieceCount (positive : 0 < size) (list : List α) :
    list.length ≤ pieceCount size list * size := by
  have divided := Nat.div_add_mod (list.length + size - 1) size
  have remainder := Nat.mod_lt (list.length + size - 1) positive
  have commuted := Nat.mul_comm size ((list.length + size - 1) / size)
  have counted : pieceCount size list * size = (list.length + size - 1) / size * size := rfl
  omega

theorem flatten_all_pieces (positive : 0 < size) (list : List α) :
    ((List.range (pieceCount size list)).map (piece size list)).flatten = list := by
  rw [flatten_pieces]
  exact take_of_length_le (length_le_pieceCount positive list)

/-- `slice::chunks`: all pieces, the last one perhaps shorter. -/
def chunks (size : Nat) (list : List α) : List (List α) :=
  (List.range (pieceCount size list)).map (piece size list)

theorem flatten_chunks (positive : 0 < size) (list : List α) :
    (chunks size list).flatten = list := flatten_all_pieces positive list

theorem chunks_nil (positive : 0 < size) : chunks size ([] : List α) = [] := by
  have none : pieceCount size ([] : List α) = 0 := Nat.div_eq_of_lt (by rw [length_nil]; omega)
  rw [chunks, none]
  rfl

theorem chunks_append {first : List α} (isWhole : 0 < first.length) (rest : List α) :
    chunks first.length (first ++ rest) = first :: chunks first.length rest := by
  have count : pieceCount first.length (first ++ rest) = pieceCount first.length rest + 1 := by
    rw [pieceCount, length_append, pieceCount,
      show first.length + rest.length + first.length - 1 = rest.length + first.length - 1
        + first.length by omega, Nat.add_div_right _ isWhole]
  rw [chunks, count, range_succ_eq_map, map_cons, map_map]
  congr 1
  · simp [piece]
  · apply map_congr_left
    intro index _
    rw [Function.comp_apply, piece, piece, Nat.succ_mul, Nat.add_comm, drop_append,
      Nat.add_sub_cancel_left, drop_eq_nil_of_le (Nat.le_add_right _ _), nil_append]

theorem chunks_of_short {list : List α} (some : list ≠ []) (short : list.length ≤ size) :
    chunks size list = [list] := by
  have positive := length_pos_iff.2 some
  have count : pieceCount size list = 1 := by
    rw [pieceCount, show list.length + size - 1 = list.length - 1 + size by omega,
      Nat.add_div_right _ (by omega), Nat.div_eq_of_lt (by omega)]
  rw [chunks, count]
  simp [piece, take_of_length_le short]

/-- Pieces that are whole up to the last one, which is not empty, are those of their list. -/
theorem chunks_flatten {pieces : List (List α)}
    (whole : ∀ piece ∈ pieces.dropLast, piece.length = size)
    (last : ∀ piece ∈ pieces.getLast?, piece ≠ [] ∧ piece.length ≤ size) (positive : 0 < size) :
    chunks size pieces.flatten = pieces := by
  induction pieces with
  | nil => exact chunks_nil positive
  | cons first rest ih =>
    cases rest with
    | nil =>
      obtain ⟨some, short⟩ := last first rfl
      rw [flatten_singleton]
      exact chunks_of_short some short
    | cons second rest =>
      rw [dropLast_cons_cons, forall_mem_cons] at whole
      rw [getLast?_cons_cons] at last
      rw [flatten_cons, ← whole.1, chunks_append (by omega), whole.1,
        ih whole.2 last]

theorem shape_chunks (positive : 0 < size) (list : List α) :
    (∀ piece ∈ (chunks size list).dropLast, piece.length = size)
      ∧ (∀ piece ∈ (chunks size list).getLast?, piece ≠ [] ∧ piece.length ≤ size)
      ∧ (list ≠ [] → chunks size list ≠ []) := by
  induction isLength : list.length using Nat.strongRecOn generalizing list with
  | ind length ih =>
    by_cases short : list.length ≤ size
    · by_cases none : list = []
      · rw [none, chunks_nil positive]
        exact ⟨nofun, nofun, fun some => absurd rfl some⟩
      · rw [chunks_of_short none short]
        refine ⟨nofun, ?_, fun _ => cons_ne_nil _ _⟩
        intro piece isLast
        obtain rfl : list = piece := Option.some.inj isLast
        exact ⟨none, short⟩
    · have isWhole : (list.take size).length = size := by
        rw [length_take]
        omega
      have rest_ne : list.drop size ≠ [] := by
        intro none
        have := drop_eq_nil_iff.1 none
        omega
      have rest := ih (list.drop size).length (by rw [length_drop]; omega) (list.drop size) rfl
      have split := @chunks_append _ (list.take size) (by omega) (list.drop size)
      rw [isWhole, take_append_drop] at split
      rw [split]
      have ⟨second, others, isCons⟩ := exists_cons_of_ne_nil (rest.2.2 rest_ne)
      rw [isCons] at rest ⊢
      rw [dropLast_cons_cons, getLast?_cons_cons]
      refine ⟨forall_mem_cons.2 ⟨isWhole, rest.1⟩, rest.2.1, ?_⟩
      exact fun _ => cons_ne_nil _ _

end Pieces

/-! ### Numbers as bytes -/

def bigEndian : Nat → Nat → List UInt8
  | 0, _ => []
  | width + 1, number => bigEndian width (number / 256) ++ [UInt8.ofNat number]

theorem length_bigEndian (width number : Nat) : (bigEndian width number).length = width := by
  induction width generalizing number with
  | zero => rfl
  | succ width ih =>
    rw [bigEndian, length_append, ih, length_singleton]

theorem bigEndian_injective (width : Nat) {left right : Nat} (leftFits : left < 256 ^ width)
    (rightFits : right < 256 ^ width) (same : bigEndian width left = bigEndian width right) :
    left = right := by
  induction width generalizing left right with
  | zero => omega
  | succ width ih =>
    rw [bigEndian, bigEndian] at same
    have sameLength : (bigEndian width (left / 256)).length
        = (bigEndian width (right / 256)).length := by
      rw [length_bigEndian, length_bigEndian]
    have ⟨sameHigh, sameLow⟩ := append_inj same sameLength
    have lowByte : left % 256 = right % 256 := by
      have bytes := congrArg UInt8.toNat (singleton_inj.1 sameLow)
      simpa using bytes
    rw [Nat.pow_succ] at leftFits rightFits
    have high := ih (Nat.div_lt_of_lt_mul (by omega))
      (Nat.div_lt_of_lt_mul (by omega)) sameHigh
    omega

def framed (width : Nat) (bytes : List UInt8) : List UInt8 := bigEndian width bytes.length ++ bytes

theorem framed_append_inj {width : Nat} {left right leftRest rightRest : List UInt8}
    (leftFits : left.length < 256 ^ width) (rightFits : right.length < 256 ^ width)
    (same : framed width left ++ leftRest = framed width right ++ rightRest) :
    left = right ∧ leftRest = rightRest := by
  rw [framed, framed, append_assoc, append_assoc] at same
  have sameWidth : (bigEndian width left.length).length = (bigEndian width right.length).length := by
    rw [length_bigEndian, length_bigEndian]
  have ⟨sameFrame, sameRest⟩ := append_inj same sameWidth
  exact append_inj sameRest (bigEndian_injective width leftFits rightFits sameFrame)

/-! ### Base64 -/

namespace Base64

def digit (value : Nat) : Char :=
  if value < 26 then Char.ofNat (65 + value)
  else if value < 52 then Char.ofNat (71 + value)
  else if value < 62 then Char.ofNat (value - 4)
  else if value = 62 then '+'
  else '/'

def digitValue (character : Char) : Option Nat :=
  let code := character.toNat
  if 65 ≤ code ∧ code ≤ 90 then some (code - 65)
  else if 97 ≤ code ∧ code ≤ 122 then some (code - 71)
  else if 48 ≤ code ∧ code ≤ 57 then some (code + 4)
  else if code = 43 then some 62
  else if code = 47 then some 63
  else none

def sextets : List UInt8 → List Nat
  | [] => []
  | [a] => [a.toNat / 4, a.toNat % 4 * 16]
  | [a, b] => [a.toNat / 4, a.toNat % 4 * 16 + b.toNat / 16, b.toNat % 16 * 4]
  | a :: b :: c :: rest =>
    a.toNat / 4 :: (a.toNat % 4 * 16 + b.toNat / 16) :: (b.toNat % 16 * 4 + c.toNat / 64)
      :: c.toNat % 64 :: sextets rest

def octets : List Nat → List UInt8
  | a :: b :: c :: d :: rest =>
    UInt8.ofNat (a * 4 + b / 16) :: UInt8.ofNat (b % 16 * 16 + c / 4)
      :: UInt8.ofNat (c % 4 * 64 + d) :: octets rest
  | [a, b, c] => [UInt8.ofNat (a * 4 + b / 16), UInt8.ofNat (b % 16 * 16 + c / 4)]
  | [a, b] => [UInt8.ofNat (a * 4 + b / 16)]
  | _ => []

/-- How many `=` fill the last group of four characters. -/
def paddingOf (length : Nat) : Nat := (3 - length % 3) % 3

/-- `btoa`, of a text with one character for each byte. -/
def btoa (bytes : List UInt8) : List Char :=
  (sextets bytes).map digit ++ List.replicate (paddingOf bytes.length) '='

def isAsciiWhitespace (character : Char) : Bool :=
  character == '\t' || character == '\n' || character == '\x0c' || character == '\r'
    || character == ' '

/-- One or two `=` at the end are taken off. -/
def withoutPadding (text : List Char) : List Char :=
  match text.reverse with
  | '=' :: '=' :: rest => rest.reverse
  | '=' :: rest => rest.reverse
  | _ => text

/-- `atob`, with its bytes for the characters of its result; nothing where it throws. -/
def atob (text : List Char) : Option (List UInt8) :=
  let bare := text.filter fun character => !isAsciiWhitespace character
  let data := if bare.length % 4 = 0 then withoutPadding bare else bare
  if data.length % 4 = 1 then none
  else (data.mapM digitValue).map octets

/-! ### Reading back what was written -/

theorem digitValue_digit {value : Nat} (small : value < 64) :
    digitValue (digit value) = some value := by
  revert value
  decide

theorem digit_plain {value : Nat} (small : value < 64) :
    isAsciiWhitespace (digit value) = false ∧ digit value ≠ '=' := by
  revert value
  decide

theorem sextets_small (bytes : List UInt8) : ∀ value ∈ sextets bytes, value < 64 := by
  induction bytes using sextets.induct with
  | case1 => simp [sextets]
  | case2 a =>
    have := a.toNat_lt
    simp only [sextets, forall_mem_cons]
    exact ⟨by omega, by omega, by simp⟩
  | case3 a b =>
    have := a.toNat_lt
    have := b.toNat_lt
    simp only [sextets, forall_mem_cons]
    exact ⟨by omega, by omega, by omega, by simp⟩
  | case4 a b c rest ih =>
    have := a.toNat_lt
    have := b.toNat_lt
    have := c.toNat_lt
    simp only [sextets, forall_mem_cons]
    exact ⟨by omega, by omega, by omega, by omega, ih⟩

theorem length_sextets (bytes : List UInt8) :
    (sextets bytes).length + paddingOf bytes.length = 4 * ((bytes.length + 2) / 3) := by
  induction bytes using sextets.induct with
  | case1 => rfl
  | case2 | case3 => simp [sextets, paddingOf]
  | case4 a b c rest ih =>
    simp only [sextets, length_cons, paddingOf] at ih ⊢
    omega

theorem octets_sextets (bytes : List UInt8) : octets (sextets bytes) = bytes := by
  have back : ∀ {value : Nat} {byte : UInt8}, value = byte.toNat → UInt8.ofNat value = byte := by
    intro value byte same
    rw [same, UInt8.ofNat_toNat]
  induction bytes using sextets.induct with
  | case1 => rfl
  | case2 a =>
    simp only [sextets, octets]
    rw [back (show _ = a.toNat by omega)]
  | case3 a b =>
    have := b.toNat_lt
    simp only [sextets, octets]
    rw [back (show _ = a.toNat by omega), back (show _ = b.toNat by omega)]
  | case4 a b c rest ih =>
    have := b.toNat_lt
    have := c.toNat_lt
    simp only [sextets, octets, ih]
    rw [back (show _ = a.toNat by omega), back (show _ = b.toNat by omega),
      back (show _ = c.toNat by omega)]

theorem length_btoa (bytes : List UInt8) : (btoa bytes).length = 4 * ((bytes.length + 2) / 3) := by
  rw [btoa, length_append, length_map, length_replicate]
  exact length_sextets bytes

theorem withoutPadding_replicate {text : List Char} {count : Nat} (few : count ≤ 2)
    (plain : '=' ∉ text) : withoutPadding (text ++ List.replicate count '=') = text := by
  have bare : withoutPadding text = text := by
    unfold withoutPadding
    split
    · rename_i rest reversed
      have member : '=' ∈ text.reverse := by simp [reversed]
      exact absurd (mem_reverse.1 member) plain
    · rename_i rest _ reversed
      have member : '=' ∈ text.reverse := by simp [reversed]
      exact absurd (mem_reverse.1 member) plain
    · rfl
  have one : withoutPadding (text ++ ['=']) = text := by
    unfold withoutPadding
    rw [reverse_append]
    split
    · rename_i rest reversed
      have tail : text.reverse = '=' :: rest := (List.cons.inj reversed).2
      have member : '=' ∈ text.reverse := by simp [tail]
      exact absurd (mem_reverse.1 member) plain
    · rename_i rest _ reversed
      rw [← (List.cons.inj reversed).2]
      exact reverse_reverse text
    · rename_i _ single
      exact absurd rfl (single _)
  have cases : count = 0 ∨ count = 1 ∨ count = 2 := by omega
  rcases cases with rfl | rfl | rfl
  · simpa using bare
  · exact one
  · simp [withoutPadding]

theorem atob_btoa (bytes : List UInt8) : atob (btoa bytes) = some bytes := by
  have small := sextets_small bytes
  have unspaced : (btoa bytes).filter (fun character => !isAsciiWhitespace character)
      = btoa bytes := by
    rw [filter_eq_self]
    intro character member
    rcases mem_append.1 member with isDigit | isPadding
    · obtain ⟨value, isValue, rfl⟩ := mem_map.1 isDigit
      simp [(digit_plain (small value isValue)).1]
    · rw [eq_of_mem_replicate isPadding]
      rfl
  have unpadded : withoutPadding (btoa bytes) = (sextets bytes).map digit := by
    apply withoutPadding_replicate
    · unfold paddingOf
      omega
    · intro member
      have ⟨value, isValue, isDigit⟩ := mem_map.1 member
      exact (digit_plain (small value isValue)).2 isDigit
  have whole : (btoa bytes).length % 4 = 0 := by
    rw [length_btoa]
    omega
  have counted := length_sextets bytes
  have enough : ((sextets bytes).map digit).length % 4 ≠ 1 := by
    rw [length_map]
    unfold paddingOf at counted
    omega
  have values : ((sextets bytes).map digit).mapM digitValue = some (sextets bytes) := by
    have general : ∀ list : List Nat, (∀ value ∈ list, value < 64) →
        (list.map digit).mapM digitValue = some list := by
      intro list
      induction list with
      | nil => exact fun _ => rfl
      | cons value rest ih =>
        intro below
        rw [forall_mem_cons] at below
        rw [map_cons, mapM_cons, digitValue_digit below.1, ih below.2]
        rfl
    exact general _ small
  unfold atob
  simp only [unspaced, whole, if_true, unpadded, if_neg enough, values, Option.map_some,
    octets_sextets]

end Base64

end Clepsydra.Library
