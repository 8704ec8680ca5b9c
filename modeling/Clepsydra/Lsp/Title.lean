import Clepsydra.Library.Pieces
import Clepsydra.Library.Utf8
import Clepsydra.Lsp.Rename

/-!
Owns: the edit that gives a page its new title when it is renamed in an editor.

Proves: exactly when the text that a client makes of it has the body and the metadata of the page,
but for the title.
-/

namespace Clepsydra.Lsp

open Library Library.Splice Library.Utf8 Library.Pieces Vault
open Sync (lines)

/-! ### The range of a document -/

def fullDocumentRange (text : List Char) : Position × Position :=
  let lines := lines (String.ofList text)
  (⟨0, 0⟩, ⟨lines.length - 1, byteLen (lines.getLast?.getD [])⟩)

def bareReturns : List Char → Nat
  | [] => 0
  | character :: rest =>
    (if character = '\r' ∧ rest.head? ≠ some '\n' then 1 else 0) + bareReturns rest

/-- A client that is sent to a line that is ended stays before its end. -/
theorem clientOffset_lt (text : List Char) : ∀ {line column : Nat},
    line < text.count '\n' + bareReturns text → clientOffset text line column < text.length := by
  induction text with
  | nil => exact nofun
  | cons character rest ih =>
    intro line column before
    rw [List.count_cons, beq_eq_decide, bareReturns] at before
    rw [List.length_cons]
    cases line with
    | zero =>
      rw [clientOffset]
      split_ifs with stays
      · omega
      · rw [not_or, not_or] at stays
        rw [decide_eq_false stays.2.1, if_neg Bool.false_ne_true,
          if_neg fun both => stays.2.2 both.1] at before
        have later := @ih 0 (column - character.utf8Size) (by omega)
        omega
    | succ line =>
      rw [clientOffset]
      split_ifs with ends
      · have atMostOne : ¬(character = '\n' ∧ character = '\r') := by
          rintro ⟨rfl, isReturn⟩
          exact absurd isReturn (by decide)
        have later := @ih line column (by
          by_cases isNewline : character = '\n'
          · rw [decide_eq_true isNewline, if_pos rfl,
              if_neg fun both => atMostOne ⟨isNewline, both.1⟩] at before
            omega
          · rw [decide_eq_false isNewline, if_neg Bool.false_ne_true] at before
            split_ifs at before <;> omega)
        omega
      · rw [endsLine_iff, not_or] at ends
        rw [decide_eq_false ends.1, if_neg Bool.false_ne_true, if_neg ends.2] at before
        have later := @ih (line + 1) column (by omega)
        omega

theorem bareReturns_le (before last : List Char) :
    bareReturns last ≤ bareReturns (before ++ last) := by
  induction before with
  | nil => exact Nat.le_refl _
  | cons character before ih =>
    rw [List.cons_append, bareReturns]
    omega

theorem clientOffset_last {last : List Char} (absent : '\n' ∉ last)
    (noReturns : bareReturns last = 0) : clientOffset last 0 (byteLen last) = last.length := by
  induction last with
  | nil => rfl
  | cons character rest ih =>
    rw [List.mem_cons, not_or] at absent
    rw [bareReturns] at noReturns
    have notReturn : character ≠ '\r' := by
      intro isReturn
      apply absent.2
      by_contra
      rw [if_pos ⟨isReturn, fun isNewline => absent.2 (List.mem_of_head? isNewline)⟩]
        at noReturns
      omega
    have positive := character.utf8Size_pos
    have later := ih absent.2 (by omega)
    have bytes : byteLen (character :: rest) = byteLen rest + character.utf8Size := by
      simp only [byteLen, List.map_cons, List.sum_cons]
      omega
    have moves : ¬(byteLen (character :: rest) = 0 ∨ character = '\n' ∨ character = '\r') := by
      rw [not_or, not_or]
      exact ⟨by omega, fun same => absent.1 same.symm, notReturn⟩
    rw [clientOffset, if_neg moves, bytes, Nat.add_sub_cancel, later, List.length_cons]

/-- Behind whole lines a client counts on. -/
theorem clientOffset_whole {before last : List Char} (whole : Whole '\n' before)
    (noReturns : bareReturns (before ++ last) = 0) (column : Nat) :
    clientOffset (before ++ last) (before.count '\n') column
      = before.length + clientOffset last 0 column := by
  induction before with
  | nil => exact (Nat.zero_add _).symm
  | cons character before ih =>
    rw [List.cons_append, bareReturns] at noReturns
    rw [List.cons_append, List.count_cons, List.length_cons]
    have wholeRest : before ≠ [] → Whole '\n' before := fun some =>
      @whole_of_append _ _ [character] _ some whole
    by_cases isNewline : character = '\n'
    · have later := ih (by
        by_cases empty : before = []
        · rw [empty]
          exact whole_nil
        · exact wholeRest empty) (by omega)
      rw [isNewline, beq_self_eq_true, if_pos rfl, clientOffset,
        if_pos (endsLine_iff.2 (.inl rfl)), later]
      omega
    · have some : before ≠ [] := by
        rintro rfl
        exact isNewline (whole character rfl)
      have later := ih (wholeRest some) (by omega)
      have among : 0 < before.count '\n' := by
        have isLast := List.getLast?_eq_some_getLast some
        rw [List.count_pos_iff, ← wholeRest some _ isLast]
        exact List.getLast_mem some
      obtain ⟨line, isLine⟩ := Nat.exists_eq_add_one_of_ne_zero (Nat.ne_of_gt among)
      have noEnd : ¬endsLine (fun _ => false) character (before ++ last) = true := by
        rw [endsLine_iff, not_or]
        refine ⟨isNewline, fun bare => ?_⟩
        rw [if_pos bare] at noReturns
        omega
      rw [beq_false_of_ne isNewline, if_neg Bool.false_ne_true, Nat.add_zero, isLine,
        clientOffset, if_neg noEnd, ← isLine, later]
      omega

theorem length_splitOn (text : List Char) : (text.splitOn '\n').length = text.count '\n' + 1 := by
  induction text with
  | nil => rfl
  | cons character rest ih =>
    rw [List.splitOn_cons_eq_if_modifyHead, List.count_cons]
    split_ifs
    · rw [List.length_cons, ih]
    · rw [List.length_modifyHead, ih]

theorem lines_of_absent {text : List Char} (absent : '\n' ∉ text) :
    lines (String.ofList text) = [text].filter fun line => line ≠ [] := by
  rw [lines, String.toList_ofList, List.splitOn_eq_singleton absent]
  rfl

theorem length_lines_concat (front : List Char) :
    (lines (String.ofList (front ++ ['\n']))).length = front.count '\n' + 1 := by
  have split : (front ++ ['\n']).splitOn '\n' = front.splitOn '\n' ++ [[]] :=
    List.splitOn_append_cons_self front []
  rw [lines, String.toList_ofList, split]
  simp [length_splitOn]

/-- The range ends with the text, just where no line feed ends it and no CR stands alone. -/
theorem clientOffset_fullDocumentRange_iff (text : List Char) :
    clientOffset text (fullDocumentRange text).2.line (fullDocumentRange text).2.character
        = text.length
      ↔ text.getLast? ≠ some '\n' ∧ bareReturns text = 0 := by
  rw [fullDocumentRange]
  dsimp only
  by_cases ended : text.getLast? = some '\n'
  · obtain ⟨front, rfl⟩ := List.getLast?_eq_some_iff.1 ended
    refine iff_of_false (Nat.ne_of_lt (clientOffset_lt _ ?_)) fun both => both.1 ended
    rw [length_lines_concat, List.count_append, List.count_singleton_self]
    omega
  · rw [and_iff_right ended]
    by_cases empty : text = []
    · rw [empty]
      exact iff_of_true rfl rfl
    · obtain ⟨before, last, rfl, whole, some, absent⟩ := exists_last_piece empty ended
      have isLast : lines (String.ofList last) = [last] := by
        rw [lines_of_absent absent]
        simp [some]
      have counted : (lines (String.ofList (before ++ last))).length - 1 = before.count '\n'
          ∧ (lines (String.ofList (before ++ last))).getLast? = Option.some last := by
        rcases List.eq_nil_or_concat before with rfl | ⟨front, final, rfl⟩
        · rw [List.nil_append, isLast]
          exact ⟨rfl, rfl⟩
        · obtain rfl : final = '\n' := whole final (by simp)
          rw [List.concat_eq_append, List.append_assoc, List.singleton_append, lines_append, isLast,
            List.length_append, length_lines_concat, List.getLast?_concat, List.count_append,
            List.count_singleton_self]
          exact ⟨rfl, rfl⟩
      rw [counted.1, counted.2, Option.getD_some]
      by_cases noReturns : bareReturns (before ++ last) = 0
      · refine iff_of_true ?_ noReturns
        have inLast : bareReturns last = 0 :=
          Nat.eq_zero_of_le_zero (noReturns ▸ bareReturns_le before last)
        rw [clientOffset_whole whole noReturns, clientOffset_last absent inLast, List.length_append]
      · refine iff_of_false (Nat.ne_of_lt (clientOffset_lt _ ?_)) noReturns
        rw [List.count_append]
        omega

/-! ### The new title -/

section Title

variable {Time : Type} (calendar : Calendar Time) (crate : TomlCrate) (yaml : YamlCrate Time)
  (validateAgeArmor : List Char → Except String Unit) (supply : Supply Time)

def updateFrontmatterTitle (fullText : List Char) (newTitle : String) : Option (List Char) :=
  let repaired := parseOrRepair calendar crate yaml validateAgeArmor supply fullText
  writePageContent calendar crate { repaired.page with title := some newTitle } repaired.body

def buildRenameTitleEdit (targetText : List Char) (newName : String) : Option TextEdit :=
  (updateFrontmatterTitle calendar crate yaml validateAgeArmor supply targetText newName).map
    fun newText =>
      ⟨(fullDocumentRange targetText).1, (fullDocumentRange targetText).2, newText⟩

/-- What a client makes of a text; `none` where the source panics. -/
def retitled (text : List Char) (newName : String) : Option (List Char) :=
  (buildRenameTitleEdit calendar crate yaml validateAgeArmor supply text newName).map
    fun edit => applied text [edit]

def Unreadable (text frontmatter fence : List Char) : Prop :=
  heldPage calendar crate yaml supply text = none
    ∧ (fence = "+++".toList ∨ fence = "---".toList)
    ∧ ∃ body, splitFenced text fence = .ok (frontmatter, body)

/-- One body and the same metadata but for the title; a frontmatter that is not read is in both. -/
structure OnlyTitle (again : Supply Time) (text : List Char) (newName : String)
    (result : List Char) : Prop where
  metadata : SamePage (parseOrRepair calendar crate yaml validateAgeArmor again result).page
    { (parseOrRepair calendar crate yaml validateAgeArmor supply text).page with
      title := some newName }
  body : (parseOrRepair calendar crate yaml validateAgeArmor again result).body
    = (parseOrRepair calendar crate yaml validateAgeArmor supply text).body
  frontmatter : ∀ frontmatter fence, Unreadable calendar crate yaml supply text frontmatter fence →
    ∃ rest, splitFenced result fence = .ok (frontmatter, rest)

variable {calendar crate yaml validateAgeArmor supply}

theorem starts_of_splitFenced {content fence : List Char} {parts : List Char × List Char}
    (splits : splitFenced content fence = .ok parts) : fence.isPrefixOf content = true := by
  unfold splitFenced at splits
  split_ifs at splits with starts
  exact starts

/-- Pages that are read have their timestamps, or a body that is no armor. -/
theorem populated_repaired (content : List Char) (valid : validateEncryptedBody validateAgeArmor
      (parseOrRepair calendar crate yaml validateAgeArmor supply content).page
      (parseOrRepair calendar crate yaml validateAgeArmor supply content).body = .ok ()) :
    (parseOrRepair calendar crate yaml validateAgeArmor supply content).page.createdAt.isSome = true
      ∧ (parseOrRepair calendar crate yaml validateAgeArmor supply content).page.updatedAt.isSome
        = true := by
  have inner := @parseOrRepair_inner _ calendar crate yaml validateAgeArmor supply content
  rw [inner.1, inner.2.1] at valid
  rw [inner.1]
  unfold parseOrRepairInner at valid ⊢
  split_ifs at valid ⊢
  · cases splits : splitFenced content "+++".toList with
    | error failure => exact ⟨rfl, rfl⟩
    | ok parts =>
      rw [splits] at valid
      dsimp only [repairToml] at valid ⊢
      cases parses : crate.parse parts.1 with
      | none => exact ⟨rfl, rfl⟩
      | some table =>
        rw [parses] at valid
        dsimp only at valid ⊢
        cases reads : metaFromTable calendar table with
        | error failure => exact ⟨rfl, rfl⟩
        | ok read =>
          rw [reads] at valid
          dsimp only at valid ⊢
          cases isValid : validateEncryptedBody validateAgeArmor
              (read.2 (read.1.getD supply.newId)) parts.2 with
          | error failure =>
            rw [isValid] at valid
            dsimp only at valid
            exact nomatch isValid.symm.trans valid
          | ok _ => exact populated_isSome _ _
  · unfold YamlCrate.parseOrRepair
    cases yaml.parseFrontmatter content with
    | ok parts => exact populated_isSome _ _
    | error _ =>
      dsimp only
      cases splitFenced content "---".toList with
      | error _ => exact ⟨rfl, rfl⟩
      | ok parts =>
        dsimp only
        cases yaml.loose parts.1 with
        | none => exact ⟨rfl, rfl⟩
        | some loose => exact populated_isSome _ _
  · exact ⟨rfl, rfl⟩

theorem read_of_lasts {page : PageMeta Time TomlValue} {body : List Char} {again : Supply Time}
    (created : ∀ instant ∈ page.createdAt, Dated calendar instant)
    (updated : ∀ instant ∈ page.updatedAt, Dated calendar instant)
    (rewritable : ∀ system, systemTable calendar page = some system → Rewritable crate page system)
    (lasts : Lasts calendar page)
    (populated : validateEncryptedBody validateAgeArmor page body = .ok () →
      page.createdAt.isSome = true ∧ page.updatedAt.isSome = true) :
    ∃ content, writePageContent calendar crate page body = some content
      ∧ SamePage (parseOrRepair calendar crate yaml validateAgeArmor again content).page page
      ∧ (parseOrRepair calendar crate yaml validateAgeArmor again content).body = body := by
  have ⟨content, toml, table, extra, isContent, isInner, parses, reads, sameExtra⟩ :=
    @exists_of_lasts _ _ _ yaml validateAgeArmor _ body again created updated rewritable lasts
  have inner := @parseOrRepair_inner _ calendar crate yaml validateAgeArmor again content
  have isRead : (repairToml calendar crate validateAgeArmor again toml body).page
        = { page with extra }
      ∧ (repairToml calendar crate validateAgeArmor again toml body).body = body := by
    simp only [repairToml, parses, reads, Option.getD_some]
    cases valid : validateEncryptedBody validateAgeArmor page body with
    | error failure =>
      have invalid : validateEncryptedBody validateAgeArmor { page with extra } body
          = .error failure := valid
      rw [invalid]
      exact ⟨rfl, rfl⟩
    | ok _ =>
      have isValid : validateEncryptedBody validateAgeArmor { page with extra } body = .ok () :=
        valid
      have stamped := populated valid
      rw [isValid]
      simp only [@ensurePopulatedMeta_of_populated _ again.now { page with extra } stamped.1
        stamped.2]
      exact ⟨trivial, trivial⟩
  refine ⟨content, isContent, ?_⟩
  rw [inner.1, inner.2.1, isInner, isRead.1, isRead.2]
  exact ⟨⟨rfl, sameExtra⟩, rfl⟩

theorem retitled_eq (text : List Char) (newName : String) :
    retitled calendar crate yaml validateAgeArmor supply text newName
      = (updateFrontmatterTitle calendar crate yaml validateAgeArmor supply text newName).map
        (· ++ text.drop (clientOffset text (fullDocumentRange text).2.line
          (fullDocumentRange text).2.character)) := by
  have start : clientOffset text 0 0 = 0 := by
    cases text <;> simp [clientOffset]
  rw [retitled, buildRenameTitleEdit, Option.map_map]
  apply congrArg (Option.map · _)
  funext content
  show replaceRange text (readEdit text ⟨⟨0, 0⟩, (fullDocumentRange text).2, content⟩) = _
  rw [readEdit, start]
  rfl

end Title

/-- **A rename in an editor changes the title of a page and nothing else**, just where its range
is the whole text and frontmatter and page are readable. -/
theorem retitled_changes_title_iff {Time : Type} (calendar : Calendar Time) (crate : TomlCrate)
    (yaml : YamlCrate Time) (validateAgeArmor : List Char → Except String Unit)
    (supply again : Supply Time) (text : List Char) (newName : String)
    {page : PageMeta Time TomlValue}
    (isPage : page = { (parseOrRepair calendar crate yaml validateAgeArmor supply text).page with
      title := some newName })
    (created : ∀ instant ∈ page.createdAt, Dated calendar instant)
    (updated : ∀ instant ∈ page.updatedAt, Dated calendar instant)
    (rewritable : ∀ system, systemTable calendar page = some system →
      Rewritable crate page system) :
    (∃ result, retitled calendar crate yaml validateAgeArmor supply text newName = some result
        ∧ OnlyTitle calendar crate yaml validateAgeArmor supply again text newName result)
      ↔ (text.getLast? ≠ some '\n' ∧ bareReturns text = 0)
        ∧ (∀ frontmatter fence, ¬Unreadable calendar crate yaml supply text frontmatter fence)
        ∧ Lasts calendar page := by
  have titled : page.title ≠ none := by
    rw [isPage]
    exact Option.some_ne_none _
  have populated := @populated_repaired _ calendar crate yaml validateAgeArmor supply text
  rw [retitled_eq, updateFrontmatterTitle, ← clientOffset_fullDocumentRange_iff]
  have within := clientOffset_le text (fullDocumentRange text).2.line
    (fullDocumentRange text).2.character
  generalize clientOffset text (fullDocumentRange text).2.line
    (fullDocumentRange text).2.character = stop at within ⊢
  dsimp only
  rw [← isPage]
  constructor
  · rintro ⟨result, isResult, only⟩
    -- What is left behind the range is written as the end of the body.
    have isWritten : writePageContent calendar crate page
        ((parseOrRepair calendar crate yaml validateAgeArmor supply text).body ++ text.drop stop)
          = some result := by
      rw [← isResult, writePageContent, writePageContent, Option.map_map]
      apply congrArg (Option.map · _)
      funext system
      exact (List.append_assoc _ _ _).symm
    obtain ⟨lasts, isBody, starts, toml, split, table, read, splits, parses, reads⟩ :=
      lasts_of_read created updated rewritable (.inr titled) isWritten (isPage ▸ only.metadata)
    refine ⟨?_, ?_, lasts⟩
    · rw [only.body, List.self_eq_append_right, List.drop_eq_nil_iff] at isBody
      exact Nat.le_antisymm within isBody
    · rintro frontmatter fence ⟨notHeld, isFence, body, splitsText⟩
      obtain ⟨rest, splitsResult⟩ :=
        only.frontmatter frontmatter fence ⟨notHeld, isFence, body, splitsText⟩
      rcases isFence with rfl | rfl
      · obtain rfl := (Prod.mk.inj (Except.ok.inj (splits.symm.trans splitsResult))).1
        rw [heldPage, if_pos (starts_of_splitFenced splitsText), splitsText] at notHeld
        dsimp only at notHeld
        rw [parses, Option.bind_some, reads] at notHeld
        cases notHeld
      · have other := starts_of_splitFenced splitsResult
        rw [List.isPrefixOf_iff_prefix] at starts other
        obtain ⟨_, rfl⟩ := starts
        cases (List.cons_prefix_cons.1 other).1
  · rintro ⟨whole, readable, lasts⟩
    obtain ⟨content, isContent, same, isBody⟩ := @read_of_lasts _ calendar crate yaml
      validateAgeArmor page _ again created updated rewritable lasts
      (by rw [isPage]; exact populated)
    refine ⟨content, ?_, ⟨isPage ▸ same, isBody, ?_⟩⟩
    · rw [isContent, whole, List.drop_length, Option.map_some, List.append_nil]
    · exact fun frontmatter fence unreadable => absurd unreadable (readable frontmatter fence)

def titledPage : PageMeta Int TomlValue := { sampleSupply.newPage with title := some "Plan" }

def titledSystem : TomlTable where
  rows := sampleSystem.rows ++ [("updated_at", .datetime "2026-01-01T00:00:00Z")]
  distinct := by decide

def titledCrate : TomlCrate := { stampedCrate with
    parse := fun text => if text = samplePrint titledSystem then some titledSystem else none }

def readSample : List Char → Repaired Int :=
  parseOrRepair sampleCalendar titledCrate protectedYamlCrate (fun _ => .ok ()) sampleSupply

def retitledSample (text : List Char) : Option (List Char) :=
  retitled sampleCalendar titledCrate protectedYamlCrate (fun _ => .ok ()) sampleSupply text "Plan"

def OnlyTitleSample (text result : List Char) : Prop :=
  OnlyTitle sampleCalendar titledCrate protectedYamlCrate (fun _ => .ok ()) sampleSupply sampleSupply
    text "Plan" result

theorem titled_text : tomlText titledCrate titledPage titledSystem = samplePrint titledSystem := by
  decide

theorem rewritable_titledPage : Rewritable titledCrate titledPage titledSystem where
  systemLines := ⟨(samplePrint titledSystem).dropLast, by decide⟩
  extraLines := .inl rfl
  extraBegins := by decide
  systemFence := by decide +kernel
  extraFence := by decide
  encryptionFence := fun encryption found => nomatch found
  reads := by
    refine ⟨titledSystem, ?_, reads_of_rows rfl⟩
    rw [titled_text]
    simp [titledCrate]
  cut := by
    intro before after isText
    have unbroken : ¬fenceLine <:+: samplePrint titledSystem := by decide +kernel
    rw [titled_text] at isText
    exact absurd ⟨before, after, by rw [isText, List.append_assoc]⟩ unbroken
  marked := by
    intro kind
    rw [titled_text]
    cases kind <;> decide +kernel

theorem retitled_changes_title_plain :
    (∃ result, retitledSample "text".toList = some result ∧ OnlyTitleSample "text".toList result)
      ↔ ("text".toList.getLast? ≠ some '\n' ∧ bareReturns "text".toList = 0)
        ∧ (∀ frontmatter fence, ¬Unreadable sampleCalendar titledCrate protectedYamlCrate
          sampleSupply "text".toList frontmatter fence)
        ∧ Lasts sampleCalendar titledPage := by
  have dated : ∀ instant ∈ some sampleSupply.now, Dated sampleCalendar instant := by
    intro instant isNow
    obtain rfl := Option.some.inj isNow
    exact sample_dated
  have isSystem : systemTable sampleCalendar titledPage = some titledSystem := rfl
  apply retitled_changes_title_iff sampleCalendar titledCrate protectedYamlCrate (fun _ => .ok ())
    sampleSupply sampleSupply "text".toList "Plan" (rfl : titledPage = _) dated dated
  intro system written
  obtain rfl := Option.some.inj (isSystem.symm.trans written)
  exact rewritable_titledPage

/-- A text that ends its last line gets another empty line. -/
theorem retitled_adds_line :
    (retitledSample "text\n".toList).map (fun result => (readSample result).body)
        = some "text\n\n".toList
      ∧ ¬∃ result, retitledSample "text\n".toList = some result
        ∧ OnlyTitleSample "text\n".toList result := by
  have adds : (retitledSample "text\n".toList).map (fun result => (readSample result).body)
      = some "text\n\n".toList := by
    decide +kernel
  refine ⟨adds, ?_⟩
  rintro ⟨result, isResult, only⟩
  have isBody : (readSample result).body = (readSample "text\n".toList).body := only.body
  rw [isResult, Option.map_some, isBody] at adds
  exact absurd adds (by decide)

end Clepsydra.Lsp
