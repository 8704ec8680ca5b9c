import Clepsydra.Feeds.Reading

/-!
Owns: lines that are written behind a text.

Proves: behind a text that ends with a line break they are its lines behind those of the text.
-/

namespace Clepsydra.Feeds

open Library Library.Pieces List
open Vault (isWhitespace)

/-! ### Line breaks -/

def IsNewline (newline : List Char) : Prop := newline = ['\n'] ∨ newline = ['\r', '\n']

theorem isNewline_newlineSequence (text : List Char) : IsNewline (newlineSequence text) := by
  unfold newlineSequence
  split_ifs
  · exact .inr rfl
  · exact .inl rfl

theorem withoutLast_concat (last : Char) (text : List Char) :
    withoutLast last (text ++ [last]) = text := by
  rw [withoutLast, if_pos getLast?_concat, dropLast_concat]

theorem withoutLast_of_ne {last : Char} {text : List Char} (other : text.getLast? ≠ some last) :
    withoutLast last text = text :=
  if_neg other

structure IsBody (body : List Char) : Prop where
  oneLine : '\n' ∉ body
  unreturned : body.getLast? ≠ some '\r'

section Written

variable {newline : List Char}

theorem IsNewline.eq_append (isNewline : IsNewline newline) :
    ∃ before, newline = before ++ ['\n'] ∧ '\n' ∉ before := by
  rcases isNewline with rfl | rfl
  · exact ⟨[], rfl, by simp⟩
  · exact ⟨['\r'], rfl, by simp⟩

theorem chunkBody_written (isNewline : IsNewline newline) {body : List Char}
    (isBody : IsBody body) : chunkBody (body ++ newline) = body := by
  rcases isNewline with rfl | rfl
  · rw [chunkBody, withoutLast_concat, withoutLast_of_ne isBody.unreturned]
  · have split : body ++ ['\r', '\n'] = (body ++ ['\r']) ++ ['\n'] := by simp
    rw [chunkBody, split, withoutLast_concat, withoutLast_concat]

theorem splitInclusive_written (isNewline : IsNewline newline) {body : List Char}
    (oneLine : '\n' ∉ body) (rest : List Char) :
    splitInclusive '\n' (body ++ newline ++ rest)
      = (body ++ newline) :: splitInclusive '\n' rest := by
  obtain ⟨before, rfl, absent⟩ := isNewline.eq_append
  have split : body ++ (before ++ ['\n']) ++ rest = (body ++ before) ++ '\n' :: rest := by simp
  have joined : '\n' ∉ body ++ before := by
    rw [mem_append, not_or]
    exact ⟨oneLine, absent⟩
  rw [split, splitInclusive_append_cons joined, append_assoc]

def written (newline : List Char) (lines : List (List Char)) : List Char :=
  lines.flatMap (· ++ newline)

theorem bodies_written (isNewline : IsNewline newline) {lines : List (List Char)}
    (areBodies : ∀ body ∈ lines, IsBody body) : bodies (written newline lines) = lines := by
  induction lines with
  | nil => rfl
  | cons body rest ih =>
    have isBody := areBodies body mem_cons_self
    have others := ih fun other among =>
      areBodies other (mem_cons_of_mem _ among)
    rw [bodies, written, flatMap_cons, splitInclusive_written isNewline isBody.oneLine,
      map_cons, chunkBody_written isNewline isBody]
    exact congrArg (body :: ·) others

theorem bodies_append {before : List Char} (whole : Whole '\n' before) (after : List Char) :
    bodies (before ++ after) = bodies before ++ bodies after := by
  rw [bodies, splitInclusive_append whole, map_append]
  rfl

/-- A last line without a line break is another line with it only where it ends in the first half of
one. -/
theorem bodies_ended (isNewline : IsNewline newline) {text : List Char} (some : text ≠ [])
    (unended : text.getLast? ≠ Option.some '\n') :
    ∃ before body, bodies text = before ++ [body] ∧ bodies (text ++ newline) = before ++
      [if newline = ['\r', '\n'] ∧ text.getLast? = Option.some '\r' then body ++ ['\r']
        else body] := by
  obtain ⟨before, piece, rfl, whole, pieceSome, absent⟩ := exists_last_piece some unended
  have isLast : (before ++ piece).getLast? = piece.getLast? :=
    getLast?_append_of_ne_nil before pieceSome
  have ended := splitInclusive_written isNewline absent []
  rw [append_nil, splitInclusive_nil] at ended
  rw [isLast] at unended
  refine ⟨bodies before, withoutLast '\r' piece, ?_, ?_⟩
  · have alone : bodies piece = [withoutLast '\r' piece] := by
      rw [bodies, splitInclusive_of_not_mem pieceSome absent, map_singleton, chunkBody,
        withoutLast_of_ne unended]
    rw [bodies_append whole, alone]
  · have alone : bodies (piece ++ newline) = [chunkBody (piece ++ newline)] := by
      rw [bodies, ended, map_singleton]
    rw [append_assoc, bodies_append whole, isLast, alone]
    congr 2
    rcases isNewline with rfl | rfl
    · rw [if_neg (by simp), chunkBody, withoutLast_concat]
    · have split : piece ++ ['\r', '\n'] = (piece ++ ['\r']) ++ ['\n'] := by simp
      rw [chunkBody, split, withoutLast_concat, withoutLast_concat]
      by_cases returned : piece.getLast? = Option.some '\r'
      · obtain ⟨content, rfl⟩ := getLast?_eq_some_iff.1 returned
        rw [if_pos ⟨rfl, returned⟩, withoutLast_concat]
      · rw [if_neg fun both => returned both.2, withoutLast_of_ne returned]

end Written

/-! ### What is read of a line -/

theorem trim_return (body : List Char) : trim (body ++ ['\r']) = trim body := by
  have isBlank : ∀ character ∈ ['\r'], isWhitespace character = true := by
    rw [forall_mem_singleton]
    rfl
  exact @Trim.trim_append_blanks _ isWhitespace [] ['\r'] (by simp) isBlank body

theorem headingText_return (body : List Char) :
    headingText (body ++ ['\r']) = headingText body := by
  rw [headingText, trim_return]
  rfl

def isIndent (character : Char) : Bool := character = ' ' || character = '\t'

def itemBehind (indentLen : Nat) : List Char → Option ListItem
  | '-' :: ' ' :: content => some ⟨trim content, indentLen, '-'⟩
  | '*' :: ' ' :: content => some ⟨trim content, indentLen, '*'⟩
  | _ => none

theorem listItem_eq (line : List Char) : listItem line
      = itemBehind (line.length - (line.dropWhile isIndent).length) (line.dropWhile isIndent) := rfl

theorem itemBehind_cons_cons (indentLen : Nat) (first second : Char) (content : List Char) :
    itemBehind indentLen (first :: second :: content)
      = if second = ' ' ∧ (first = '-' ∨ first = '*') then some ⟨trim content, indentLen, first⟩
        else none := by
  by_cases isItem : second = ' ' ∧ (first = '-' ∨ first = '*')
  · rw [if_pos isItem]
    obtain ⟨rfl, rfl | rfl⟩ := isItem <;> rfl
  · rw [if_neg isItem]
    unfold itemBehind
    split
    · rename_i same
      obtain ⟨rfl, later⟩ := List.cons.inj same
      exact absurd ⟨(List.cons.inj later).1, .inl rfl⟩ isItem
    · rename_i same
      obtain ⟨rfl, later⟩ := List.cons.inj same
      exact absurd ⟨(List.cons.inj later).1, .inr rfl⟩ isItem
    · rfl

theorem itemBehind_singleton (indentLen : Nat) (character : Char) :
    itemBehind indentLen [character] = none := by
  unfold itemBehind
  split
  · rename_i same
    exact nomatch (List.cons.inj same).2
  · rename_i same
    exact nomatch (List.cons.inj same).2
  · rfl

theorem itemBehind_return (indentLen : Nat) (behind : List Char) :
    itemBehind indentLen (behind ++ ['\r']) = itemBehind indentLen behind := by
  match behind with
  | [] => rfl
  | [first] =>
    rw [itemBehind_singleton]
    exact (itemBehind_cons_cons indentLen first '\r' []).trans (if_neg fun isItem =>
      absurd isItem.1 (by decide))
  | first :: second :: content =>
    rw [cons_append, cons_append, itemBehind_cons_cons, itemBehind_cons_cons, trim_return]

theorem listItem_return (body : List Char) : listItem (body ++ ['\r']) = listItem body := by
  rw [listItem_eq, listItem_eq, dropWhile_append]
  split_ifs with allIndent
  · have none : body.dropWhile isIndent = [] := by simpa using allIndent
    rw [none]
    rfl
  · have same : (body ++ ['\r']).length - (body.dropWhile isIndent ++ ['\r']).length
        = body.length - (body.dropWhile isIndent).length := by
      rw [length_append, length_append]
      omega
    rw [same, itemBehind_return]

theorem look_return (webUrl : List Char → Bool) (body : List Char) :
    look webUrl (body ++ ['\r']) = look webUrl body := by
  rw [look, look, trim_return, readLine, headingText_return, listItem_return]
  rfl

/-! ### Texts with lines behind them -/

section Looks

variable {webUrl : List Char → Bool} {newline : List Char}

theorem looks_append {before : List Char} (whole : Whole '\n' before) (after : List Char) :
    looks webUrl (before ++ after) = looks webUrl before ++ looks webUrl after := by
  rw [looks, bodies_append whole, map_append]
  rfl

variable (isNewline : IsNewline newline)

include isNewline

theorem looks_written {lines : List (List Char)} (areBodies : ∀ body ∈ lines, IsBody body) :
    looks webUrl (written newline lines) = lines.map (look webUrl) := by
  rw [looks, bodies_written isNewline areBodies]

theorem looks_ended {text : List Char} (some : text ≠ [])
    (unended : text.getLast? ≠ Option.some '\n') :
    looks webUrl (text ++ newline) = looks webUrl text := by
  have ⟨before, body, isText, isEnded⟩ := bodies_ended isNewline some unended
  rw [looks, looks, isText, isEnded, map_append, map_append, map_singleton, map_singleton]
  split_ifs
  · rw [look_return]
  · rfl

theorem IsNewline.whole (text : List Char) :
    Whole '\n' (text ++ newline) := by
  obtain ⟨before, rfl, _⟩ := isNewline.eq_append
  rw [← append_assoc]
  exact whole_concat _

theorem IsNewline.ends {text : List Char} (isEnd : newline.isSuffixOf text = true) :
    Whole '\n' text := by
  obtain ⟨before, rfl⟩ := isSuffixOf_iff_suffix.1 isEnd
  exact isNewline.whole before

omit isNewline

theorem isBody_nil : IsBody [] := ⟨not_mem_nil, by simp⟩

theorem written_append (newline : List Char) (first second : List (List Char)) :
    written newline (first ++ second) = written newline first ++ written newline second :=
  flatMap_append

end Looks

/-! ### Frontmatter -/

def OpensFrontmatter (text : List Char) : Prop :=
  match bodies text with
  | [] => False
  | first :: rest => IsDelimiter (trim first) ∧ ∀ body ∈ rest, trim body ≠ trim first

instance (text : List Char) : Decidable (OpensFrontmatter text) := by
  unfold OpensFrontmatter
  split <;> infer_instance

section Shown

variable {seen later : List (List Char × Reading)} {delimiter : List Char}

theorem behind_append_of_mem (closed : ∃ line ∈ seen, line.1 = delimiter) :
    behind delimiter (seen ++ later) = behind delimiter seen ++ later.map Prod.snd := by
  induction seen with
  | nil => exact absurd closed (by simp)
  | cons first rest ih =>
    rw [cons_append, behind, behind, cons_append]
    by_cases closes : first.1 = delimiter
    · rw [if_pos closes, if_pos closes, map_append]
    · rw [if_neg closes, if_neg closes]
      obtain ⟨line, among, isClosing⟩ := closed
      rcases mem_cons.1 among with rfl | inRest
      · exact absurd isClosing closes
      · rw [ih ⟨line, inRest, isClosing⟩]

theorem behind_of_not_mem (unclosed : ∀ line ∈ seen, line.1 ≠ delimiter) :
    behind delimiter seen = List.replicate seen.length .other := by
  induction seen with
  | nil => rfl
  | cons first rest ih =>
    rw [forall_mem_cons] at unclosed
    rw [behind, if_neg unclosed.1, ih unclosed.2]
    rfl

theorem shownOf_append (plain : ∀ line ∈ later, ¬IsDelimiter line.1)
    (closed : ∀ first rest, seen = first :: rest → IsDelimiter first.1 →
      ∃ line ∈ rest, line.1 = first.1) :
    shownOf (seen ++ later) = shownOf seen ++ later.map Prod.snd := by
  cases seen with
  | nil =>
    cases later with
    | nil => rfl
    | cons first rest =>
      have isPlain := plain first mem_cons_self
      show (if IsDelimiter first.1 then _ else _) = _
      rw [if_neg isPlain]
      rfl
  | cons first rest =>
    rw [cons_append, shownOf, shownOf]
    split_ifs with opens
    · rw [behind_append_of_mem (closed first rest rfl opens)]
      rfl
    · rw [map_append]
      rfl

theorem shownOf_of_unclosed {first : List Char × Reading} (opens : IsDelimiter first.1)
    (unclosed : ∀ line ∈ seen, line.1 ≠ first.1) :
    shownOf (first :: seen) = List.replicate (seen.length + 1) .other := by
  rw [shownOf, if_pos opens, behind_of_not_mem unclosed]
  rfl

end Shown

end Clepsydra.Feeds
