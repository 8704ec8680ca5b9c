import Clepsydra.Library.Substring
import Clepsydra.Vault.PageMeta

/-!
Owns: the attendees of a meeting, and the targets of links that stand in a property.

Proves: exactly for which texts the two sides take the same target of a link.
-/

namespace Clepsydra.Vault.Attendance

open Library List Option
open Library.Trim (Tight)

/-! ### Targets -/

def beforeBar (text : String) : String :=
  match splitOnce ['|'] text.toList with
  | some (target, _) => String.ofList target
  | none => text

def bracketed (trimmed : String) : Option String := (stripStart "[[" trimmed).bind (stripEnd "]]")

/-- `link_target`. -/
def linkTarget (raw : String) : String :=
  let trimmed := trim raw
  trim (beforeBar ((bracketed trimmed).getD trimmed))

structure PropertyRef where
  targetRaw : String
  sourceField : String

/-- `extract_property_refs`. -/
def extractPropertyRefs (fieldName : String) (values : List String) : List PropertyRef :=
  values.map fun value =>
    let trimmed := trim value
    ⟨((bracketed trimmed).map beforeBar).getD trimmed, fieldName⟩

/-! ### Attendees -/

def attendeesKey : String := "attendees"

structure Attendee where
  raw : String
  target : String

inductive AttendanceError where
  | invalidShape
  | emptyAttendee
  | duplicateAttendee (name : String)

def rawValues : TomlValue → Except AttendanceError (List String)
  | .string single => .ok [single]
  | .array items =>
    match items.mapM TomlValue.asStr with
    | some texts => .ok texts
    | none => .error .invalidShape
  | _ => .error .invalidShape

def pushAttendee (unicode : Unicode) (attendees : List Attendee) (raw : String) :
    Except AttendanceError (List Attendee) :=
  let target := linkTarget raw
  if target = "" then .error .emptyAttendee
  else if attendees.any fun seen =>
      canonicalName unicode seen.target == canonicalName unicode target then
    .error (.duplicateAttendee target)
  else .ok (attendees ++ [⟨raw, target⟩])

/-- `attendees`. -/
def attendees {Time : Type} (unicode : Unicode) (page : PageMeta Time TomlValue) :
    Except AttendanceError (List Attendee) :=
  match page.extra.value attendeesKey with
  | none => .ok []
  | some value => do (← rawValues value).foldlM (pushAttendee unicode) []

/-! ### Agreement -/

/-- There is no blank at an edge of a wikilink's target, and no bar in a text that is none. -/
def Plain (raw : String) : Prop :=
  match bracketed (trim raw) with
  | some inner => Tight isWhitespace (beforeBar inner).toList
  | none => '|' ∉ raw.toList

instance (raw : String) : Decidable (Plain raw) := by
  unfold Plain
  split
  · infer_instance
  · infer_instance

theorem length_beforeBar {text : String} (bar : '|' ∈ text.toList) :
    (beforeBar text).toList.length < text.toList.length := by
  unfold beforeBar
  cases split : splitOnce ['|'] text.toList with
  | none =>
    have absent := (splitOnce_eq_none_iff (cons_ne_nil _ _)).1 split
    exact absurd ((singleton_infix_iff _ _).2 bar) absent
  | some parts =>
    have whole := congrArg List.length (append_of_splitOnce split).1
    simp only [String.toList_ofList]
    simp only [length_append, length_cons, length_nil] at whole
    omega

theorem beforeBar_of_absent {text : String} (absent : '|' ∉ text.toList) :
    beforeBar text = text := by
  have noSplit : splitOnce ['|'] text.toList = none := by
    rw [splitOnce_eq_none_iff (cons_ne_nil _ _), singleton_infix_iff]
    exact absent
  unfold beforeBar
  rw [noSplit]

theorem target_eq_iff (raw : String) :
    linkTarget raw = ((bracketed (trim raw)).map beforeBar).getD (trim raw) ↔ Plain raw := by
  have isTarget : linkTarget raw = trim (beforeBar ((bracketed (trim raw)).getD (trim raw))) := rfl
  rw [isTarget]
  unfold Plain
  cases bracketed (trim raw) with
  | some inner =>
    rw [getD_some, map_some, getD_some]
    exact trim_eq_self_iff (beforeBar inner)
  | none =>
    rw [getD_none, map_none, getD_none]
    constructor
    · intro same bar
      have inTrimmed : '|' ∈ (trim raw).toList := by
        rw [toList_trim]
        exact Trim.mem_trim_of_solid bar (by decide)
      have shorter := length_beforeBar inTrimmed
      have trimmed := @Trim.length_trim_le _ isWhitespace (beforeBar (trim raw)).toList
      rw [← toList_trim, same] at trimmed
      omega
    · intro absent
      have notInTrimmed : '|' ∉ (trim raw).toList := by
        rw [toList_trim]
        obtain ⟨before, after, split, -, -⟩ := @Trim.exists_of_trim _ isWhitespace raw.toList
        intro member
        apply absent
        rw [split]
        exact mem_append_right _ (mem_append_left _ member)
      rw [beforeBar_of_absent notInTrimmed, trim_eq_self_iff, toList_trim]
      exact Trim.tight_trim raw.toList

/-- The targets of a list of texts are the same on both sides exactly when all of them are plain. -/
theorem link_targets_agree_iff (fieldName : String) (values : List String) :
    values.map linkTarget = (extractPropertyRefs fieldName values).map PropertyRef.targetRaw ↔
      ∀ raw ∈ values, Plain raw := by
  have targets : (extractPropertyRefs fieldName values).map PropertyRef.targetRaw
      = values.map fun raw => ((bracketed (trim raw)).map beforeBar).getD (trim raw) := by
    rw [extractPropertyRefs, List.map_map]
    rfl
  simp only [targets, map_inj_left, target_eq_iff]

/-- A padded wikilink has another target for the index than for the list of attendees. -/
theorem padded_target_differs : ["[[ Ada ]]"].map linkTarget ≠
      (extractPropertyRefs attendeesKey ["[[ Ada ]]"]).map PropertyRef.targetRaw := by
  decide

end Clepsydra.Vault.Attendance
