import Clepsydra.Editor.PageEditor

/-!
Owns: the last edit of every field, visit by visit, and the save that keeps it.

Proves: while no page is left with a save under way that misses edits, the last edits of a page are
in a request for it, or the server has them.
-/

namespace Clepsydra.Editor

open Library Library.Transitions List Function Option

/-! ### Fields and their edits -/

inductive Field where
  | title
  | tags
  | aliases
  | body
deriving DecidableEq

structure LastEdit where
  value : Value
  gen : Nat
deriving DecidableEq

abbrev Edits := Nat → Field → Option LastEdit

def Edit.field {Doc : Type} : Edit Doc → Field
  | .title _ => .title
  | .tags _ => .tags
  | .aliases _ => .aliases
  | .slate _ | .markdown _ => .body

def PageFields.value (fields : PageFields) (body : String) : Field → Value
  | .title => .title fields.title
  | .tags => .tags fields.tags
  | .aliases => .aliases fields.aliases
  | .body => .body body

def Field.blank (field : Field) : Value := PageFields.blank.value "" field

def Field.gen (bodyGen metaGen : Nat) : Field → Nat
  | .body => bodyGen
  | .title | .tags | .aliases => metaGen

theorem Field.gen_le {bodyGen metaGen laterBody laterMeta : Nat} (field : Field)
    (later : bodyGen ≤ laterBody ∧ metaGen ≤ laterMeta) :
    field.gen bodyGen metaGen ≤ field.gen laterBody laterMeta := by
  cases field with
  | body => exact later.1
  | title | tags | aliases => exact later.2

def Pass.value (pass : Pass) (field : Field) : Value := pass.fields.value pass.body field

def Pass.saved (pass : Pass) (field : Field) : Value := pass.savedFields.value pass.savedBody field

def Pass.gen (pass : Pass) (field : Field) : Nat := field.gen pass.bodyGen pass.metaGen

def Pass.changedAt (pass : Pass) : Field → Bool
  | .title => pass.titleChanged
  | .tags => pass.tagsChanged
  | .aliases => pass.aliasesChanged
  | .body => pass.bodyChanged

/-! ### Edits that are kept -/

def Request.sends (request : Request) (pass : Pass) : Value → Prop
  | .title title => request.title.map (fun sent => sent.getD "") = some title
  | .tags tags => request.tags = some tags
  | .aliases aliases => request.aliases = some aliases
  | .body body => request.body.isSome = true ∧ pass.body = body
      ∧ (pass.encrypted = false → request.body = some body)

def Pass.Covers (pass : Pass) (epoch : Nat) (field : Field) (edit : LastEdit) : Prop :=
  pass.epoch = epoch ∧ edit.gen ≤ pass.gen field

def Pass.Finds (pass : Pass) (field : Field) (value : Value) : Prop :=
  pass.revision ≠ "" ∧ pass.saved field = value

def Request.Keeps (request : Request) (epoch : Nat) (field : Field) (edit : LastEdit) : Prop :=
  match request.sender with
  | .save pass =>
    pass.Covers epoch field edit ∧ (request.sends pass edit.value ∨ pass.Finds field edit.value)
  | .readonly _ | .generated _ _ => False

def Kept (requests : List Request) (idle : List Pass) (epoch : Nat) (field : Field)
    (edit : LastEdit) : Prop :=
  (∃ request ∈ requests, request.Keeps epoch field edit)
    ∨ ∃ pass ∈ idle, pass.Covers epoch field edit ∧ pass.Finds field edit.value

instance decidableSends (request : Request) (pass : Pass) (value : Value) :
    Decidable (request.sends pass value) := by
  cases value <;> unfold Request.sends <;> infer_instance

instance decidableCovers (pass : Pass) (epoch : Nat) (field : Field) (edit : LastEdit) :
    Decidable (pass.Covers epoch field edit) := by
  unfold Pass.Covers
  infer_instance

instance decidableFinds (pass : Pass) (field : Field) (value : Value) :
    Decidable (pass.Finds field value) := by
  unfold Pass.Finds
  infer_instance

instance decidableKeeps (request : Request) (epoch : Nat) (field : Field) (edit : LastEdit) :
    Decidable (request.Keeps epoch field edit) := by
  unfold Request.Keeps
  split <;> infer_instance

instance decidableKept (requests : List Request) (idle : List Pass) (epoch : Nat) (field : Field)
    (edit : LastEdit) : Decidable (Kept requests idle epoch field edit) := by
  unfold Kept
  infer_instance

def Pass.Carries (pass : Pass) (field : Field) (value : Value) : Prop :=
  pass.value field = value ∧ (pass.changedAt field = true ∨ pass.Finds field value)

section Kept

variable {requests more : List Request} {idle : List Pass} {epoch : Nat} {field : Field}
  {edit : LastEdit} {pass : Pass} (kept : Kept requests idle epoch field edit)

include kept

theorem Kept.append :
    Kept (requests ++ more) idle epoch field edit := by
  rcases kept with ⟨request, member, keeps⟩ | idle
  · exact .inl ⟨request, mem_append_left _ member, keeps⟩
  · exact .inr idle

theorem Kept.appendIdle :
    Kept requests (idle ++ [pass]) epoch field edit := by
  rcases kept with sent | ⟨found, member, keeps⟩
  · exact .inl sent
  · exact .inr ⟨found, mem_append_left _ member, keeps⟩

theorem Kept.setRequest {index : Nat} {request : Request} (found : requests[index]? = some request)
    (answer : Option Answer) (handled : Bool) :
    Kept (requests.set index { request with answer, handled }) idle epoch field edit := by
  rcases kept with ⟨other, member, keeps⟩ | idle
  · have ⟨place, isOther⟩ := mem_iff_getElem?.1 member
    by_cases same : index = place
    · rw [← same, found, some.injEq] at isOther
      have below : index < requests.length := (List.getElem?_eq_some_iff.1 found).1
      refine .inl ⟨{ request with answer, handled }, ?_, ?_⟩
      · exact mem_iff_getElem?.2 ⟨index, getElem?_set_self below⟩
      · rw [← isOther] at keeps
        exact keeps
    · refine .inl ⟨other, mem_iff_getElem?.2 ⟨place, ?_⟩, keeps⟩
      rw [getElem?_set_ne same]
      exact isOther
  · exact .inr idle

omit kept

theorem saved_eq_value (unchanged : pass.changedAt field = false)
    (dirty : field = .body → pass.bodyDirty = true) : pass.saved field = pass.value field := by
  cases field with
  | title =>
    simp only [Pass.changedAt, Pass.titleChanged, decide_eq_false_iff_not, not_not] at unchanged
    exact congrArg Value.title unchanged.symm
  | tags =>
    simp only [Pass.changedAt, Pass.tagsChanged, decide_eq_false_iff_not, not_not] at unchanged
    exact congrArg Value.tags unchanged.symm
  | aliases =>
    simp only [Pass.changedAt, Pass.aliasesChanged, decide_eq_false_iff_not, not_not] at unchanged
    exact congrArg Value.aliases unchanged.symm
  | body =>
    simp only [Pass.changedAt, Pass.bodyChanged, dirty rfl, Bool.true_and,
      decide_eq_false_iff_not, not_not] at unchanged
    exact congrArg Value.body unchanged.symm

theorem changed_of_changedAt (changed : pass.changedAt field = true) : pass.changed = true := by
  cases field with
  | title => simp [Pass.changed, show pass.titleChanged = true from changed]
  | tags => simp [Pass.changed, show pass.tagsChanged = true from changed]
  | aliases => simp [Pass.changed, show pass.aliasesChanged = true from changed]
  | body => simp [Pass.changed, show pass.bodyChanged = true from changed]

theorem sends_request {path revision : String} {body : Option String}
    (changed : pass.changedAt field = true)
    (fits : pass.bodyChanged = true →
      ∃ sent, body = some sent ∧ (pass.encrypted = false → sent = pass.body)) :
    (pass.request path revision body).sends pass (pass.value field) := by
  cases field with
  | title =>
    have isChanged : pass.titleChanged = true := changed
    show Option.map _ (pass.request path revision body).title = some pass.fields.title
    simp only [Pass.request, isChanged, if_true, map_some]
    split_ifs with isEmpty
    · rw [isEmpty, getD_none]
    · rfl
  | tags =>
    have isChanged : pass.tagsChanged = true := changed
    show (pass.request path revision body).tags = some pass.fields.tags
    simp only [Pass.request, isChanged, if_true]
  | aliases =>
    have isChanged : pass.aliasesChanged = true := changed
    show (pass.request path revision body).aliases = some pass.fields.aliases
    simp only [Pass.request, isChanged, if_true]
  | body =>
    have ⟨sent, isSent, same⟩ := fits changed
    show body.isSome = true ∧ pass.body = pass.body
      ∧ (pass.encrypted = false → body = some pass.body)
    refine ⟨by rw [isSent]; rfl, rfl, fun plain => ?_⟩
    rw [isSent, same plain]

theorem kept_request {path revision : String} {body : Option String}
    (covers : pass.Covers epoch field edit) (carries : pass.Carries field edit.value)
    (fits : pass.bodyChanged = true →
      ∃ sent, body = some sent ∧ (pass.encrypted = false → sent = pass.body)) :
    Kept (requests ++ [pass.request path revision body]) idle epoch field edit := by
  refine .inl ⟨pass.request path revision body, mem_append_right _ mem_cons_self, ?_⟩
  refine ⟨covers, carries.2.imp (fun changed => ?_) id⟩
  rw [← carries.1]
  exact sends_request changed fits

end Kept

/-! ### What holds of every visit -/

def Stage.unsent : Stage → Bool
  | .ensuring | .encrypting _ _ => true
  | .requesting _ | .passed => false

section Invariant

variable {Doc : Type} (conversion : Conversion Doc)

def Hook.text (hook : Hook Doc) : String :=
  hook.bodyOverride.getD (conversion.slateToMarkdown hook.editorValue)

structure Held (fields fieldsRef : PageFields) (text : String) (savedBodyGen savedMetaGen : Nat)
    (field : Field) (edit : LastEdit) : Prop where
  state : fields.value text field = edit.value
  ref : fieldsRef.value text field = edit.value
  unsaved : field.gen savedBodyGen savedMetaGen < edit.gen

def Covered (flight : Option Flight) (epoch : Nat) (field : Field) (edit : LastEdit) : Prop :=
  ∃ found, flight = some found ∧ found.epoch = epoch ∧ edit.gen ≤ found.pass.gen field

def Awaited (timer saveRequested : Bool) (flight : Option Flight) (waiting : List Nat)
    (epoch : Nat) : Prop :=
  timer = true ∨ ∃ found, flight = some found
    ∧ ((saveRequested = true ∧ found.epoch = epoch) ∨ epoch ∈ waiting)

structure FlightKeeps (edits : Edits) (lifecycle bodyEditGen metaEditGen : Nat)
    (requests : List Request) (idle : List Pass) (flight : Flight) : Prop where
  epoch : flight.epoch = flight.pass.epoch
  recent : flight.epoch ≤ lifecycle
  gens : flight.epoch = lifecycle →
    flight.pass.bodyGen ≤ bodyEditGen ∧ flight.pass.metaGen ≤ metaEditGen
  encrypting : ∀ path revision, flight.stage = .encrypting path revision →
    flight.pass.encrypted = true
  carries : ∀ field edit, edits flight.epoch field = some edit → edit.gen ≤ flight.pass.gen field →
    Kept requests idle flight.epoch field edit
      ∨ (flight.stage.unsent = true ∧ flight.pass.Carries field edit.value)

structure Holding (edits : Edits) (hook : Hook Doc) : Prop where
  generated : hook.generated = none
  conflict : hook.conflict = none
  reloads : hook.reloads = []
  accepted : ∀ request ∈ hook.requests, ∀ answer, request.answer = some answer →
    ∃ page, answer = .accepted page
  blank : hook.revision = "" → hook.savedFields = .blank ∧ hook.savedBody = ""
  future : ∀ epoch field, hook.lifecycle < epoch → edits epoch field = none
  gens : ∀ field edit, edits hook.lifecycle field = some edit →
    edit.gen ≤ field.gen hook.bodyEditGen hook.metaEditGen
  savedGens : hook.savedBodyGen ≤ hook.bodyEditGen ∧ hook.savedMetaGen ≤ hook.metaEditGen
  flight : ∀ flight, hook.flight = some flight →
    FlightKeeps edits hook.lifecycle hook.bodyEditGen hook.metaEditGen hook.requests hook.idle flight
  shown : ∀ field edit, edits hook.lifecycle field = some edit →
    Kept hook.requests hook.idle hook.lifecycle field edit
      ∨ Held hook.fields hook.fieldsRef (hook.text conversion) hook.savedBodyGen hook.savedMetaGen
        field edit
  gone : hook.mounted = false → hook.timer = false

structure Pursuit (edits : Edits) (hook : Hook Doc) : Prop extends Holding conversion edits hook where
  pursued : ∀ field edit, edits hook.lifecycle field = some edit →
    Kept hook.requests hook.idle hook.lifecycle field edit
      ∨ Covered hook.flight hook.lifecycle field edit
      ∨ Awaited hook.timer hook.saveRequested hook.flight hook.waiting hook.lifecycle
  left : ∀ epoch field edit, epoch < hook.lifecycle → edits epoch field = some edit →
    Kept hook.requests hook.idle epoch field edit ∨ Covered hook.flight epoch field edit

def Touched (edits : Edits) (epoch : Nat) : Prop :=
  ∀ field edit, edits epoch field = some edit → edit.value ≠ field.blank

def Firm (edits : Edits) (hook : Hook Doc) : Prop :=
  hook.revision = "" → Touched edits hook.lifecycle

end Invariant

/-! ### Saves -/

section Saves

variable {Doc : Type} {conversion : Conversion Doc} {edits : Edits} {hook : Hook Doc}

theorem carries_snapshot {field : Field} {edit : LastEdit} (holding : Holding conversion edits hook)
    (firm : Firm edits hook) (isEdit : edits hook.lifecycle field = some edit)
    (held : Held hook.fields hook.fieldsRef (hook.text conversion) hook.savedBodyGen
      hook.savedMetaGen field edit) (encrypted : Bool) :
    (hook.snapshot conversion encrypted).Carries field edit.value := by
  have dirty : field = .body → hook.bodyDirty = true := by
    intro isBody
    have newer := holding.gens field edit isEdit
    have unsaved := held.unsaved
    rw [isBody] at newer unsaved
    exact decide_eq_true (Nat.lt_of_lt_of_le unsaved newer)
  have isValue : (hook.snapshot conversion encrypted).value field = edit.value := by
    rw [← held.ref]
    cases field with
    | title => rfl
    | tags => rfl
    | aliases => rfl
    | body =>
      show Value.body (if hook.bodyDirty then hook.text conversion else hook.savedBody) = _
      rw [if_pos (dirty rfl)]
      rfl
  refine ⟨isValue, ?_⟩
  by_cases changed : (hook.snapshot conversion encrypted).changedAt field = true
  · exact .inl changed
  · have same := saved_eq_value (Bool.eq_false_iff.2 changed) dirty
    rw [isValue] at same
    refine .inr ⟨fun unloaded => firm unloaded field edit isEdit ?_, same⟩
    have ⟨blankFields, blankBody⟩ := holding.blank unloaded
    rw [← same]
    show hook.savedFields.value hook.savedBody field = field.blank
    rw [blankFields, blankBody]
    rfl

theorem pursuit_inFlight {pass : Pass} {stage : Stage} (holding : Holding conversion edits hook)
    (left : ∀ epoch field edit, epoch < hook.lifecycle → edits epoch field = some edit →
      Kept hook.requests hook.idle epoch field edit)
    (isEpoch : pass.epoch = hook.lifecycle)
    (gens : pass.bodyGen = hook.bodyEditGen ∧ pass.metaGen = hook.metaEditGen)
    (encrypting : ∀ path revision, stage = .encrypting path revision → pass.encrypted = true)
    (carries : ∀ field edit, edits hook.lifecycle field = some edit →
      Kept hook.requests hook.idle hook.lifecycle field edit
        ∨ (stage.unsent = true ∧ pass.Carries field edit.value)) :
    Pursuit conversion edits (hook.inFlight pass stage) where
  toHolding := { holding with
      flight := fun flight isFlight => by
        rw [← some.inj isFlight]
        exact ⟨rfl, Nat.le_of_eq isEpoch, fun _ => ⟨Nat.le_of_eq gens.1, Nat.le_of_eq gens.2⟩,
          encrypting, fun field edit isEdit _ => isEpoch ▸ carries field edit (isEpoch ▸ isEdit)⟩ }
  pursued := fun field edit isEdit => by
    refine .inr (.inl ⟨⟨pass.epoch, pass, stage⟩, rfl, isEpoch, ?_⟩)
    have newer : edit.gen ≤ field.gen hook.bodyEditGen hook.metaEditGen :=
      holding.gens field edit isEdit
    rw [← gens.1, ← gens.2] at newer
    exact newer
  left := fun epoch field edit older isEdit => .inl (left epoch field edit older isEdit)

theorem FlightKeeps.mono {lifecycle bodyEditGen metaEditGen : Nat} {requests more : List Request}
    {idle moreIdle : List Pass} {flight : Flight}
    (keeps : FlightKeeps edits lifecycle bodyEditGen metaEditGen requests idle flight)
    (mono : ∀ epoch field edit, Kept requests idle epoch field edit →
      Kept more moreIdle epoch field edit) :
    FlightKeeps edits lifecycle bodyEditGen metaEditGen more moreIdle flight :=
  { keeps with
    carries := fun field edit isEdit covers =>
      (keeps.carries field edit isEdit covers).imp_left (mono _ _ _) }

theorem Holding.mono {requests : List Request} {idle : List Pass}
    (holding : Holding conversion edits hook)
    (mono : ∀ epoch field edit, Kept hook.requests hook.idle epoch field edit →
      Kept requests idle epoch field edit)
    (accepted : ∀ request ∈ requests, ∀ answer, request.answer = some answer →
      ∃ page, answer = .accepted page) :
    Holding conversion edits { hook with requests, idle } :=
  { holding with
    accepted
    flight := fun flight isFlight => (holding.flight flight isFlight).mono mono
    shown := fun field edit isEdit => (holding.shown field edit isEdit).imp_left (mono _ _ _) }

theorem Pursuit.mono {requests : List Request} {idle : List Pass}
    (pursuit : Pursuit conversion edits hook)
    (mono : ∀ epoch field edit, Kept hook.requests hook.idle epoch field edit →
      Kept requests idle epoch field edit)
    (accepted : ∀ request ∈ requests, ∀ answer, request.answer = some answer →
      ∃ page, answer = .accepted page) :
    Pursuit conversion edits { hook with requests, idle } where
  toHolding := pursuit.toHolding.mono mono accepted
  pursued := fun field edit isEdit => (pursuit.pursued field edit isEdit).imp_left (mono _ _ _)
  left := fun epoch field edit older isEdit =>
    (pursuit.left epoch field edit older isEdit).imp_left (mono _ _ _)

theorem accepted_append {requests : List Request} {request : Request}
    (accepted : ∀ request ∈ requests, ∀ answer, request.answer = some answer →
      ∃ page, answer = .accepted page) (unanswered : request.answer = none) :
    ∀ other ∈ requests ++ [request], ∀ answer, other.answer = some answer →
      ∃ page, answer = .accepted page := by
  intro other member answer isAnswer
  rcases mem_append.1 member with old | new
  · exact accepted other old answer isAnswer
  · rw [mem_singleton.1 new, unanswered] at isAnswer
    cases isAnswer

theorem Holding.markSaved {pass : Pass} (holding : Holding conversion edits hook)
    (gens : pass.bodyGen ≤ hook.bodyEditGen ∧ pass.metaGen ≤ hook.metaEditGen)
    (kept : ∀ field edit, edits hook.lifecycle field = some edit → edit.gen ≤ pass.gen field →
      Kept hook.requests hook.idle hook.lifecycle field edit) :
    Holding conversion edits (hook.markSaved pass) := by
  refine { holding with savedGens := gens, shown := fun field edit isEdit => ?_ }
  rcases holding.shown field edit isEdit with isKept | held
  · exact .inl isKept
  by_cases covers : edit.gen ≤ pass.gen field
  · exact .inl (kept field edit isEdit covers)
  · have newer : pass.gen field < edit.gen := Nat.lt_of_not_le covers
    have isText : field = .body → (hook.markSaved pass).text conversion = hook.text conversion := by
      intro isBody
      have current := holding.gens field edit isEdit
      rw [isBody] at newer current
      have differs : hook.bodyEditGen ≠ pass.bodyGen := by
        intro same
        have below : pass.bodyGen < hook.bodyEditGen := Nat.lt_of_lt_of_le newer current
        omega
      simp only [Hook.text, Hook.markSaved, differs, false_and, if_false]
    have sameValue : ∀ fields : PageFields, fields.value ((hook.markSaved pass).text conversion) field
        = fields.value (hook.text conversion) field := by
      intro fields
      cases field with
      | body => rw [isText rfl]
      | title | tags | aliases => rfl
    exact .inr ⟨(sameValue _).trans held.state, (sameValue _).trans held.ref, newer⟩

theorem Pursuit.savePass (holding : Holding conversion edits hook)
    (left : ∀ epoch field edit, epoch < hook.lifecycle → edits epoch field = some edit →
      Kept hook.requests hook.idle epoch field edit)
    (firm : Firm edits hook) (encrypted : Bool) :
    Pursuit conversion edits (hook.savePass conversion encrypted) := by
  have carries : ∀ field edit, edits hook.lifecycle field = some edit →
      Kept hook.requests hook.idle hook.lifecycle field edit
        ∨ (hook.snapshot conversion encrypted).Carries field edit.value := by
    intro field edit isEdit
    exact (holding.shown field edit isEdit).imp_right
      fun held => carries_snapshot holding firm isEdit held encrypted
  have covers : ∀ field edit, edits hook.lifecycle field = some edit →
      (hook.snapshot conversion encrypted).Covers hook.lifecycle field edit :=
    fun field edit isEdit => ⟨rfl, holding.gens field edit isEdit⟩
  have cleared : Holding conversion edits { hook with saveRequested := false } := { holding with }
  have sends : ∀ body : Option String,
      ((hook.snapshot conversion encrypted).bodyChanged = true → ∃ sent, body = some sent
        ∧ ((hook.snapshot conversion encrypted).encrypted = false
          → sent = (hook.snapshot conversion encrypted).body)) →
      Pursuit conversion edits
        ({ hook with saveRequested := false }.send (hook.snapshot conversion encrypted)
          (hook.snapshot conversion encrypted).path (hook.snapshot conversion encrypted).revision
          body) := by
    intro body fits
    have more := cleared.mono (fun _ _ _ kept => kept.append)
      (@accepted_append _ ((hook.snapshot conversion encrypted).request
        (hook.snapshot conversion encrypted).path (hook.snapshot conversion encrypted).revision body)
        holding.accepted rfl)
    refine pursuit_inFlight more (fun _ _ _ older isEdit => (left _ _ _ older isEdit).append) rfl
      ⟨rfl, rfl⟩ (fun _ _ isStage => nomatch isStage) fun field edit isEdit => .inl ?_
    rcases carries field edit isEdit with kept | carried
    · exact kept.append
    · exact kept_request (covers field edit isEdit) carried fits
  unfold Hook.savePass
  simp only
  split_ifs with isIdle draft
  · have kept : ∀ field edit, edits hook.lifecycle field = some edit →
        Kept hook.requests (hook.idle ++ [hook.snapshot conversion encrypted]) hook.lifecycle field
          edit := by
      intro field edit isEdit
      rcases carries field edit isEdit with isKept | carried
      · exact isKept.appendIdle
      · refine .inr ⟨_, mem_append_right _ mem_cons_self, covers field edit isEdit, ?_⟩
        exact carried.2.resolve_left fun changed => by
          rw [changed_of_changedAt changed] at isIdle
          cases isIdle
    have more := cleared.mono (fun _ _ _ isKept => @Kept.appendIdle _ _ _ _ _
      (hook.snapshot conversion encrypted) isKept) holding.accepted
    have marked := @Holding.markSaved _ _ _ _ (hook.snapshot conversion encrypted) more
      ⟨Nat.le_refl _, Nat.le_refl _⟩ fun field edit isEdit _ => kept field edit isEdit
    refine pursuit_inFlight marked ?_ rfl ⟨rfl, rfl⟩ ?_ ?_
    · exact fun _ _ _ older isEdit => (left _ _ _ older isEdit).appendIdle
    · exact fun _ _ isStage => nomatch isStage
    · exact fun field edit isEdit => .inl (kept field edit isEdit)
  · refine pursuit_inFlight cleared left rfl ⟨rfl, rfl⟩ ?_ ?_
    · exact fun _ _ isStage => nomatch isStage
    · exact fun field edit isEdit =>
        (carries field edit isEdit).imp_right fun carried => ⟨rfl, carried⟩
  · unfold Hook.proceed
    split_ifs with encrypts changed
    · rw [Bool.and_eq_true] at encrypts
      refine pursuit_inFlight cleared left rfl ⟨rfl, rfl⟩ ?_ ?_
      · exact fun _ _ _ => encrypts.2
      · exact fun field edit isEdit =>
          (carries field edit isEdit).imp_right fun carried => ⟨rfl, carried⟩
    · exact sends _ fun _ => ⟨_, rfl, fun _ => rfl⟩
    · exact sends _ fun isChanged => absurd isChanged changed

theorem Pursuit.keptLeft (pursuit : Pursuit conversion edits hook)
    (landed : ∀ flight, hook.flight = some flight → flight.stage.unsent = false) :
    ∀ epoch field edit, epoch < hook.lifecycle → edits epoch field = some edit →
      Kept hook.requests hook.idle epoch field edit := by
  intro epoch field edit older isEdit
  rcases pursuit.left epoch field edit older isEdit with kept | ⟨flight, isFlight, rfl, covers⟩
  · exact kept
  · rcases (pursuit.flight flight isFlight).carries field edit isEdit covers with kept | carried
    · exact kept
    · rw [landed flight isFlight] at carried
      exact absurd carried.1 Bool.false_ne_true

theorem Holding.doSave_eq (holding : Holding conversion edits hook) : hook.doSave conversion
      = match hook.flight with
        | some flight =>
          if flight.epoch = hook.lifecycle then { hook with timer := false, saveRequested := true }
          else { hook with timer := false, waiting := hook.waiting ++ [hook.lifecycle] }
        | none => { hook with timer := false }.savePass conversion hook.encrypted := by
  have free : ¬hook.holdsSaves = true := by simp [Hook.holdsSaves, holding.generated]
  have agreed : ¬hook.conflict.isSome = true := by simp [holding.conflict]
  unfold Hook.doSave
  rw [if_neg free]
  simp only
  rw [if_neg agreed]
  rfl

theorem Pursuit.doSave (pursuit : Pursuit conversion edits hook)
    (firm : hook.flight = none → Firm edits hook) :
    Pursuit conversion edits (hook.doSave conversion) := by
  have stopped : Holding conversion edits { hook with timer := false } :=
    { pursuit.toHolding with gone := fun _ => rfl }
  rw [pursuit.toHolding.doSave_eq]
  split
  · rename_i flight isFlight
    split_ifs with isCurrent
    · refine { stopped with
        pursued := fun field edit isEdit => .inr (.inr (.inr ⟨flight, isFlight, ?_⟩))
        left := pursuit.left }
      exact .inl ⟨rfl, isCurrent⟩
    · refine { stopped with
        pursued := fun field edit isEdit => .inr (.inr (.inr ⟨flight, isFlight, ?_⟩))
        left := pursuit.left }
      exact .inr (mem_append_right _ mem_cons_self)
  · rename_i landed
    refine Pursuit.savePass stopped ?_ (firm landed) _
    exact pursuit.keptLeft fun flight isFlight => nomatch landed.symm.trans isFlight

theorem firm_doSave (firm : Firm edits hook) : Firm edits (hook.doSave conversion) := by
  have ⟨_, _, _, _, _, _, _, _, _, isFrame⟩ := doSave_frame conversion hook
  rw [isFrame]
  exact firm

theorem Pursuit.wake : ∀ (epochs : List Nat) {hook : Hook Doc}, Pursuit conversion edits hook →
    (hook.lifecycle ∈ epochs → Firm edits hook) → Pursuit conversion edits (hook.wake conversion epochs)
  | [], _, pursuit, _ => pursuit
  | epoch :: rest, hook, pursuit, firm => by
    unfold Hook.wake
    by_cases isShown : hook.lifecycle = epoch
    · rw [if_pos isShown]
      have isFirm := firm (by rw [isShown]; exact mem_cons_self)
      exact Pursuit.wake rest (pursuit.doSave fun _ => isFirm) fun _ => firm_doSave isFirm
    · rw [if_neg isShown]
      exact Pursuit.wake rest pursuit fun member => firm (mem_cons_of_mem _ member)

theorem pursuit_wake : ∀ (epochs : List Nat) {hook : Hook Doc}, Holding conversion edits hook →
    (∀ epoch field edit, epoch < hook.lifecycle → edits epoch field = some edit →
      Kept hook.requests hook.idle epoch field edit) →
    hook.flight = none → hook.lifecycle ∈ epochs → Firm edits hook →
    Pursuit conversion edits (hook.wake conversion epochs)
  | [], _, _, _, _, member, _ => nomatch member
  | epoch :: rest, hook, holding, left, landed, member, firm => by
    unfold Hook.wake
    by_cases isShown : hook.lifecycle = epoch
    · rw [if_pos isShown]
      refine Pursuit.wake rest ?_ fun _ => firm_doSave firm
      have stopped : Holding conversion edits { hook with timer := false } :=
        { holding with gone := fun _ => rfl }
      rw [holding.doSave_eq]
      split
      · rename_i flight isFlight
        exact nomatch landed.symm.trans isFlight
      · exact Pursuit.savePass stopped left firm _
    · rw [if_neg isShown]
      have isLater := (mem_cons.1 member).resolve_left isShown
      exact pursuit_wake rest holding left landed isLater firm

theorem Pursuit.settle (pursuit : Pursuit conversion edits hook) {flight : Flight}
    (isFlight : hook.flight = some flight) (passed : flight.stage = .passed)
    (firm : (hook.saveRequested = true ∧ hook.lifecycle = flight.epoch)
      ∨ hook.lifecycle ∈ hook.waiting → Firm edits hook) :
    Pursuit conversion edits (hook.settle conversion flight) := by
  have keptLeft := pursuit.keptLeft fun other isOther => by
    rw [isFlight, some.injEq] at isOther
    rw [← isOther, passed]
    rfl
  have landed : Holding conversion edits { hook with flight := none, waiting := [] } :=
    { pursuit.toHolding with flight := fun _ isSome => nomatch isSome }
  unfold Hook.settle
  split_ifs with again
  · simp only [Bool.and_eq_true, decide_eq_true_eq] at again
    exact Pursuit.savePass pursuit.toHolding keptLeft (firm (.inl again)) _
  · simp only [Bool.and_eq_true, decide_eq_true_eq] at again
    by_cases isWaiting : hook.lifecycle ∈ hook.waiting
    · exact pursuit_wake hook.waiting landed keptLeft rfl isWaiting (firm (.inr isWaiting))
    · refine Pursuit.wake hook.waiting ?_ fun member => absurd member isWaiting
      refine { landed with
        pursued := fun field edit isEdit => ?_
        left := fun epoch field edit older isEdit => .inl (keptLeft epoch field edit older isEdit) }
      rcases pursuit.pursued field edit isEdit with kept | covered | pending | ⟨found, isFound, awaited⟩
      · exact .inl kept
      · have ⟨found, isFound, isEpoch, covers⟩ := covered
        rw [isFlight, some.injEq] at isFound
        rw [← isFound] at isEpoch covers
        have carried := (pursuit.flight flight isFlight).carries field edit (isEpoch ▸ isEdit) covers
        rw [passed, isEpoch] at carried
        exact .inl (carried.resolve_right fun unsent => nomatch unsent.1)
      · exact .inr (.inr (.inl pending))
      · rw [isFlight, some.injEq] at isFound
        rw [← isFound] at awaited
        rcases awaited with ⟨requested, isEpoch⟩ | waits
        · exact absurd ⟨requested, isEpoch.symm⟩ again
        · exact absurd waits isWaiting

end Saves

/-! ### What comes back -/

section Responses

variable {Doc : Type} {conversion : Conversion Doc} {edits : Edits} {hook : Hook Doc}
  {flight : Flight} (pursuit : Pursuit conversion edits hook) (isFlight : hook.flight = some flight)

include pursuit isFlight

theorem Pursuit.advance {stage : Stage}
    (encrypting : ∀ path revision, stage = .encrypting path revision → flight.pass.encrypted = true)
    (carries : ∀ field edit, edits flight.epoch field = some edit →
      edit.gen ≤ flight.pass.gen field → Kept hook.requests hook.idle flight.epoch field edit
        ∨ (stage.unsent = true ∧ flight.pass.Carries field edit.value)) :
    Pursuit conversion edits (hook.inFlight flight.pass stage) := by
  have keeps := pursuit.flight flight isFlight
  have isEpoch := keeps.epoch
  have covered : ∀ epoch field edit, Covered hook.flight epoch field edit →
      Covered (some ⟨flight.pass.epoch, flight.pass, stage⟩) epoch field edit := by
    intro epoch field edit ⟨found, isFound, same, covers⟩
    rw [isFlight, some.injEq] at isFound
    rw [← isFound] at same covers
    exact ⟨_, rfl, isEpoch ▸ same, covers⟩
  refine { pursuit.toHolding with
    flight := fun other isOther => ?_
    pursued := fun field edit isEdit =>
      (pursuit.pursued field edit isEdit).imp_right (Or.imp (covered _ _ _) ?_)
    left := fun epoch field edit older isEdit =>
      (pursuit.left epoch field edit older isEdit).imp_right (covered _ _ _) }
  · rw [← some.inj isOther]
    exact ⟨rfl, isEpoch ▸ keeps.recent, fun isCurrent => keeps.gens (isEpoch.trans isCurrent),
      encrypting, fun field edit isEdit covers => isEpoch ▸ carries field edit (isEpoch ▸ isEdit) covers⟩
  · rintro (pending | ⟨found, isFound, awaited⟩)
    · exact .inl pending
    · rw [isFlight, some.injEq] at isFound
      rw [← isFound, isEpoch] at awaited
      exact .inr ⟨_, rfl, awaited⟩

theorem Pursuit.send {path revision : String} {body : Option String}
    (fits : flight.pass.bodyChanged = true →
      ∃ sent, body = some sent ∧ (flight.pass.encrypted = false → sent = flight.pass.body)) :
    Pursuit conversion edits (hook.send flight.pass path revision body) := by
  have keeps := pursuit.flight flight isFlight
  have more := pursuit.mono (fun _ _ _ kept => kept.append)
    (@accepted_append _ (flight.pass.request path revision body) pursuit.accepted rfl)
  refine more.advance isFlight (fun _ _ isStage => nomatch isStage)
    fun field edit isEdit covers => .inl ?_
  rcases keeps.carries field edit isEdit covers with kept | ⟨_, carried⟩
  · exact kept.append
  · exact kept_request ⟨keeps.epoch.symm, covers⟩ carried fits

theorem Pursuit.proceed (path revision : String) :
    Pursuit conversion edits (hook.proceed flight.pass path revision) := by
  unfold Hook.proceed
  split_ifs with encrypts changed
  · rw [Bool.and_eq_true] at encrypts
    refine pursuit.advance isFlight (fun _ _ _ => encrypts.2) fun field edit isEdit covers => ?_
    exact ((pursuit.flight flight isFlight).carries field edit isEdit covers).imp_right
      fun carried => ⟨rfl, carried.2⟩
  · exact pursuit.send isFlight fun _ => ⟨_, rfl, fun _ => rfl⟩
  · exact pursuit.send isFlight fun isChanged => absurd isChanged changed

omit isFlight pursuit

theorem fill_value {ref fields server : PageFields} {text : String} {field : Field} {value : Value}
    (isRef : ref.value text field = value) (isValue : fields.value text field = value)
    (touched : value ≠ field.blank) : (ref.fill fields server).value text field = value := by
  cases field with
  | title =>
    have nonempty : ref.title ≠ "" := by
      intro isEmpty
      apply touched
      rw [← isRef]
      exact congrArg Value.title isEmpty
    show Value.title (if ref.title = "" then server.title else fields.title) = value
    rw [if_neg nonempty]
    exact isValue
  | tags =>
    have nonempty : ref.tags ≠ [] := by
      intro isEmpty
      apply touched
      rw [← isRef]
      exact congrArg Value.tags isEmpty
    show Value.tags (if ref.tags = [] then server.tags else fields.tags) = value
    rw [if_neg nonempty]
    exact isValue
  | aliases =>
    have nonempty : ref.aliases ≠ [] := by
      intro isEmpty
      apply touched
      rw [← isRef]
      exact congrArg Value.aliases isEmpty
    show Value.aliases (if ref.aliases = [] then server.aliases else fields.aliases) = value
    rw [if_neg nonempty]
    exact isValue
  | body => exact isValue

variable (pursuit : Pursuit conversion edits hook)

include pursuit

theorem Pursuit.adoptEnsured (result : EnsureResult) (touched : Touched edits hook.lifecycle) :
    Pursuit conversion edits (hook.adoptEnsured result) := by
  refine { pursuit with
    blank := fun unloaded => absurd unloaded result.page.hasRevision
    shown := fun field edit isEdit => (pursuit.shown field edit isEdit).imp_right fun held => ?_ }
  have nonblank := touched field edit isEdit
  exact ⟨fill_value held.ref held.state nonblank, fill_value held.ref held.ref nonblank, held.unsaved⟩

theorem Pursuit.afterEnsure (isFlight : hook.flight = some flight) {result : EnsureResult}
    (fresh : ¬(result.created = false ∧ jsTrim result.page.body ≠ ""))
    (touched : hook.lifecycle = flight.epoch → Touched edits hook.lifecycle) :
    Pursuit conversion edits (hook.afterEnsure flight result) := by
  unfold Hook.afterEnsure
  simp only
  rw [if_neg fresh]
  by_cases stale : hook.lifecycle ≠ flight.epoch
  · rw [if_pos stale]
    exact pursuit.proceed isFlight _ _
  · rw [if_neg stale]
    have adopted := pursuit.adoptEnsured result (touched (not_not.1 stale))
    exact adopted.proceed isFlight _ _

theorem Pursuit.afterSave (isFlight : hook.flight = some flight)
    (sent : flight.stage.unsent = false) (response : PageData) :
    Pursuit conversion edits (hook.afterSave flight response) := by
  have keeps := pursuit.flight flight isFlight
  have kept : ∀ field edit, edits flight.epoch field = some edit →
      edit.gen ≤ flight.pass.gen field → Kept hook.requests hook.idle flight.epoch field edit := by
    intro field edit isEdit covers
    apply (keeps.carries field edit isEdit covers).resolve_right
    intro carried
    rw [sent] at carried
    exact absurd carried.1 Bool.false_ne_true
  unfold Hook.afterSave
  by_cases stale : hook.lifecycle ≠ flight.epoch
  · rw [if_pos stale]
    exact pursuit.advance isFlight (fun _ _ isStage => nomatch isStage)
      fun field edit isEdit covers => .inl (kept field edit isEdit covers)
  · rw [if_neg stale]
    have isCurrent : hook.lifecycle = flight.epoch := not_not.1 stale
    have answered : Pursuit conversion edits { hook with
          revision := response.revision
          savedFields := response.fields
          savedBody :=
            if flight.pass.encrypted then
              (if flight.pass.bodyChanged then flight.pass.body else hook.savedBody)
            else response.body } :=
      { pursuit with blank := fun unloaded => absurd unloaded response.hasRevision }
    have marked := answered.toHolding.markSaved (keeps.gens isCurrent.symm)
      fun field edit isEdit covers => by
        have isKept := kept field edit (isCurrent ▸ isEdit) covers
        rw [← isCurrent] at isKept
        exact isKept
    have again : Pursuit conversion edits ({ hook with
          revision := response.revision
          savedFields := response.fields
          savedBody :=
            if flight.pass.encrypted then
              (if flight.pass.bodyChanged then flight.pass.body else hook.savedBody)
            else response.body }.markSaved flight.pass) :=
      { marked with pursued := pursuit.pursued, left := pursuit.left }
    exact again.advance isFlight (fun _ _ isStage => nomatch isStage)
      fun field edit isEdit covers => .inl (kept field edit isEdit covers)

theorem Pursuit.setRequest {index : Nat} {request : Request}
    (found : hook.requests[index]? = some request) {answer : Option Answer} (handled : Bool)
    (accepts : ∀ given, answer = some given → ∃ page, given = .accepted page) :
    Pursuit conversion edits
      { hook with requests := hook.requests.set index { request with answer, handled } } := by
  refine pursuit.mono (fun _ _ _ kept => kept.setRequest found answer handled) ?_
  intro other member given isGiven
  rcases mem_or_eq_of_mem_set member with old | new
  · exact pursuit.accepted other old given isGiven
  · rw [new] at isGiven
    exact accepts given isGiven

theorem Pursuit.handle {index : Nat} {request : Request} {answer : Answer}
    (found : hook.requests[index]? = some request) (isAnswer : request.answer = some answer) :
    Pursuit conversion edits (hook.handle conversion index request answer) := by
  have accepts := pursuit.accepted request (mem_of_getElem? found)
  have handled := pursuit.setRequest found true accepts
  unfold Hook.handle
  simp only
  split
  · split
    · exact handled
    · rename_i flight isFlight
      by_cases other : flight.stage ≠ .requesting index
      · rw [if_pos other]
        exact handled
      · rw [if_neg other]
        obtain ⟨response, rfl⟩ := accepts answer isAnswer
        exact handled.afterSave isFlight (by rw [not_not.1 other]; rfl) response
  · exact handled
  · unfold Hook.afterGenerated
    simp only [pursuit.generated, any_none, Bool.false_eq_true, and_false, not_false_eq_true,
      if_true]
    exact pursuit.generated ▸ handled

end Responses

/-! ### Effects -/

section Effects

variable {Doc : Type} {conversion : Conversion Doc} {edits : Edits} {hook : Hook Doc}

theorem Pursuit.take (pursuit : Pursuit conversion edits hook) (query : Query) :
    Pursuit conversion edits (hook.take query) := { pursuit with }

theorem Pursuit.commit (pursuit : Pursuit conversion edits hook) :
    Pursuit conversion edits hook.commit :=
  { pursuit with
    shown := fun field edit isEdit =>
      (pursuit.shown field edit isEdit).imp_right fun held => { held with ref := held.state } }

theorem Holding.keptClean (holding : Holding conversion edits hook)
    (bodyClean : hook.bodyDirty = false) (metaClean : hook.metaDirty = false) :
    ∀ field edit, edits hook.lifecycle field = some edit →
      Kept hook.requests hook.idle hook.lifecycle field edit := by
  intro field edit isEdit
  rcases holding.shown field edit isEdit with kept | held
  · exact kept
  · have newer := holding.gens field edit isEdit
    have unsaved := held.unsaved
    simp only [Hook.bodyDirty, Hook.metaDirty, decide_eq_false_iff_not, Nat.not_lt]
      at bodyClean metaClean
    have older := field.gen_le ⟨bodyClean, metaClean⟩
    omega

variable (pursuit : Pursuit conversion edits hook)

include pursuit

theorem Pursuit.sync :
    Pursuit conversion edits (hook.sync conversion) := by
  unfold Hook.sync
  split
  · exact pursuit
  · rename_i number page isPage
    by_cases syncs : hook.syncs = false
    · rw [if_pos syncs]
      exact pursuit
    · rw [if_neg syncs]
      simp only [Hook.syncs, Bool.not_eq_false, Bool.and_eq_true, Bool.not_eq_true'] at syncs
      have kept := pursuit.toHolding.keptClean syncs.1.1.2 syncs.1.2
      have shown : ∀ fields : PageFields, Pursuit conversion edits { hook with fields } :=
        fun fields => { pursuit with shown := fun field edit isEdit => .inl (kept field edit isEdit) }
      simp only
      split
      · exact shown page.fields
      · exact { pursuit with
          blank := fun unloaded => absurd unloaded page.hasRevision
          shown := fun field edit isEdit => .inl (kept field edit isEdit) }

theorem Pursuit.flush (firm : hook.timer = true → hook.flight = none → Firm edits hook) :
    Pursuit conversion edits (hook.flush conversion) := by
  unfold Hook.flush
  split_ifs with pending
  · exact pursuit.doSave (firm pending)
  · exact pursuit

theorem Pursuit.saveOffline (firm : hook.online = false → hook.flight = none → Firm edits hook) :
    Pursuit conversion edits (hook.saveOffline conversion) := by
  unfold Hook.saveOffline
  split_ifs with isOnline
  · exact pursuit
  · exact pursuit.doSave (firm (by simpa using isOnline))

theorem Pursuit.rerender (query : Query) :
    Pursuit conversion edits (hook.rerender conversion query) := by
  have shown := (pursuit.take query).commit
  unfold Hook.rerender
  simp only
  split_ifs
  · exact shown
  · exact shown.sync

omit pursuit

theorem pursuit_reset {path : String} (holding : Holding conversion edits hook)
    (left : ∀ epoch field edit, epoch ≤ hook.lifecycle → edits epoch field = some edit →
      Kept hook.requests hook.idle epoch field edit ∨ Covered hook.flight epoch field edit) :
    Pursuit conversion edits (hook.reset conversion path) := by
  have none : ∀ field edit, edits (hook.lifecycle + 1) field = some edit → False := by
    intro field edit isEdit
    rw [holding.future _ field (Nat.lt_succ_self _)] at isEdit
    cases isEdit
  exact
    { generated := rfl
      conflict := rfl
      reloads := holding.reloads
      accepted := holding.accepted
      blank := fun _ => ⟨rfl, rfl⟩
      future := fun epoch field later => holding.future epoch field (Nat.lt_of_succ_lt later)
      gens := fun field edit isEdit => (none field edit isEdit).elim
      savedGens := ⟨Nat.le_refl _, Nat.le_refl _⟩
      flight := fun flight isFlight => by
        have keeps := holding.flight flight isFlight
        have recent := keeps.recent
        refine { keeps with recent := Nat.le_succ_of_le recent, gens := fun isCurrent => ?_ }
        have newer : flight.epoch = hook.lifecycle + 1 := isCurrent
        omega
      shown := fun field edit isEdit => (none field edit isEdit).elim
      gone := holding.gone
      pursued := fun field edit isEdit => (none field edit isEdit).elim
      left := fun epoch field edit older isEdit =>
        left epoch field edit (Nat.le_of_lt_succ older) isEdit }

theorem flight_savePass (hook : Hook Doc) (encrypted : Bool) :
    ∃ stage, (hook.savePass conversion encrypted).flight
      = some ⟨hook.lifecycle, hook.snapshot conversion encrypted, stage⟩ := by
  unfold Hook.savePass Hook.proceed
  simp only
  split_ifs
  · exact ⟨_, rfl⟩
  · exact ⟨_, rfl⟩
  · exact ⟨_, rfl⟩
  · exact ⟨_, rfl⟩
  · exact ⟨_, rfl⟩

theorem flush_of_flight (holding : Holding conversion edits hook) {flight : Flight}
    (isFlight : hook.flight = some flight) :
    (hook.flush conversion).requests = hook.requests ∧ (hook.flush conversion).idle = hook.idle
      ∧ (hook.flush conversion).flight = hook.flight := by
  unfold Hook.flush
  split_ifs
  · rw [holding.doSave_eq, isFlight]
    simp only
    split_ifs
    · exact ⟨rfl, rfl, rfl⟩
    · exact ⟨rfl, rfl, rfl⟩
  · exact ⟨rfl, rfl, rfl⟩

def MayLeave (hook : Hook Doc) : Prop :=
  hook.flight = none ∨ (hook.bodyDirty = false ∧ hook.metaDirty = false)
    ∨ (hook.flight.any fun flight => flight.epoch = hook.lifecycle
        ∧ flight.pass.bodyGen = hook.bodyEditGen ∧ flight.pass.metaGen = hook.metaEditGen) = true

theorem Pursuit.leaves (pursuit : Pursuit conversion edits hook) (mayLeave : MayLeave hook) :
    ∀ field edit, edits hook.lifecycle field = some edit →
      Kept (hook.flush conversion).requests (hook.flush conversion).idle hook.lifecycle field edit
        ∨ Covered (hook.flush conversion).flight hook.lifecycle field edit := by
  intro field edit isEdit
  have newer := pursuit.gens field edit isEdit
  by_cases landed : hook.flight = none
  · unfold Hook.flush
    by_cases pending : hook.timer = true
    · rw [if_pos pending, pursuit.toHolding.doSave_eq, landed]
      have ⟨stage, isFlight⟩ := @flight_savePass _ conversion { hook with timer := false }
        hook.encrypted
      exact .inr ⟨_, isFlight, rfl, newer⟩
    · rw [if_neg pending]
      rcases pursuit.pursued field edit isEdit with kept | covered | isPending | ⟨found, isFound, _⟩
      · exact .inl kept
      · exact .inr covered
      · exact absurd isPending pending
      · exact nomatch landed.symm.trans isFound
  · have ⟨flight, isFlight⟩ := ne_none_iff_exists'.1 landed
    have ⟨sameRequests, sameIdle, sameFlight⟩ := flush_of_flight pursuit.toHolding isFlight
    rw [sameRequests, sameIdle, sameFlight]
    rcases mayLeave with isNone | ⟨bodyClean, metaClean⟩ | taken
    · exact absurd isNone landed
    · exact .inl (pursuit.toHolding.keptClean bodyClean metaClean field edit isEdit)
    · rw [isFlight, any_some, decide_eq_true_eq] at taken
      have ⟨isCurrent, sameBody, sameMeta⟩ := taken
      rw [← sameBody, ← sameMeta] at newer
      exact .inr ⟨flight, isFlight, isCurrent, newer⟩

theorem lifecycle_sync (hook : Hook Doc) : (hook.sync conversion).lifecycle = hook.lifecycle := by
  unfold Hook.sync
  split
  · rfl
  · split_ifs
    · rfl
    · simp only
      split <;> rfl

theorem Pursuit.navigate (pursuit : Pursuit conversion edits hook) (path : String)
    (canDraft : Bool) (query : Query) (mayLeave : MayLeave hook)
    (firm : hook.timer = true → hook.flight = none → Firm edits hook) :
    Pursuit conversion edits (hook.navigate conversion path canDraft query) := by
  have flushed := pursuit.flush firm
  have same := lifecycle_flush conversion hook
  have moved : Pursuit conversion edits
      { hook.flush conversion with path, canDraft, page := none } := { flushed with }
  have revisited : Pursuit conversion edits
      ((hook.flush conversion).revisit conversion path canDraft query) := by
    apply Pursuit.sync
    apply pursuit_reset (moved.take query).commit.toHolding
    intro epoch field edit older isEdit
    rcases Nat.lt_or_eq_of_le older with isOlder | isCurrent
    · exact flushed.left epoch field edit isOlder isEdit
    · have isLeft : epoch = hook.lifecycle := isCurrent.trans same
      rw [isLeft] at isEdit ⊢
      exact pursuit.leaves mayLeave field edit isEdit
  apply revisited.saveOffline
  intro _ _ _ field edit isEdit
  have isNew : ((hook.flush conversion).revisit conversion path canDraft query).lifecycle
      = hook.lifecycle + 1 := by
    unfold Hook.revisit
    rw [lifecycle_sync]
    exact congrArg Nat.succ same
  rw [isNew, pursuit.future _ field (Nat.lt_succ_self _)] at isEdit
  cases isEdit

end Effects

/-! ### Edits -/

def Edits.record (edits : Edits) (epoch : Nat) (field : Field) (edit : LastEdit) : Edits :=
  update edits epoch (update (edits epoch) field (some edit))

section Edits

variable {Doc : Type} {conversion : Conversion Doc} {edits : Edits} {hook : Hook Doc}

theorem record_cases {epoch other : Nat} {field place : Field} {edit found : LastEdit}
    (isEdit : edits.record epoch field edit other place = some found) :
    (other = epoch ∧ place = field ∧ found = edit)
      ∨ ((other ≠ epoch ∨ place ≠ field) ∧ edits other place = some found) := by
  unfold Edits.record at isEdit
  by_cases isEpoch : other = epoch
  · rw [isEpoch, update_self] at isEdit
    by_cases isField : place = field
    · rw [isField, update_self, some.injEq] at isEdit
      exact .inl ⟨isEpoch, isField, isEdit.symm⟩
    · rw [update_of_ne isField] at isEdit
      exact .inr ⟨.inr isField, isEpoch ▸ isEdit⟩
  · rw [update_of_ne isEpoch] at isEdit
    exact .inr ⟨.inl isEpoch, isEdit⟩

theorem pursuit_edit {fields fieldsRef : PageFields} {editorValue : Doc}
    {bodyOverride : Option String} {bodyEditGen metaEditGen : Nat} {field : Field} {value : Value}
    (pursuit : Pursuit conversion edits hook) (mounted : hook.mounted = true)
    (newer : field.gen hook.bodyEditGen hook.metaEditGen < field.gen bodyEditGen metaEditGen)
    (notOlder : hook.bodyEditGen ≤ bodyEditGen ∧ hook.metaEditGen ≤ metaEditGen)
    (values : ∀ place, fields.value
        (bodyOverride.getD (conversion.slateToMarkdown editorValue)) place
      = if place = field then value else hook.fields.value (hook.text conversion) place)
    (refs : ∀ place, fieldsRef.value
        (bodyOverride.getD (conversion.slateToMarkdown editorValue)) place
      = if place = field then value else hook.fieldsRef.value (hook.text conversion) place) :
    Pursuit conversion
      (edits.record hook.lifecycle field ⟨value, field.gen bodyEditGen metaEditGen⟩)
      { hook with
        fields, fieldsRef, editorValue, bodyOverride, bodyEditGen, metaEditGen, timer := true } := by
  refine { pursuit with
    future := fun epoch place later => ?_
    gens := fun place edit isEdit => ?_
    savedGens := ⟨Nat.le_trans pursuit.savedGens.1 notOlder.1,
      Nat.le_trans pursuit.savedGens.2 notOlder.2⟩
    flight := fun flight isFlight => ?_
    shown := fun place edit isEdit => ?_
    gone := fun isGone => nomatch mounted.symm.trans isGone
    pursued := fun _ _ _ => .inr (.inr (.inl rfl))
    left := fun epoch place edit older isEdit => ?_ }
  · have isLater : hook.lifecycle < epoch := later
    rw [Edits.record, update_of_ne (Nat.ne_of_gt isLater)]
    exact pursuit.future epoch place isLater
  · rcases record_cases isEdit with ⟨_, rfl, rfl⟩ | ⟨_, old⟩
    · exact Nat.le_refl _
    · exact Nat.le_trans (pursuit.gens place edit old) (place.gen_le notOlder)
  · have keeps := pursuit.flight flight isFlight
    refine { keeps with
      gens := fun isCurrent => ⟨Nat.le_trans (keeps.gens isCurrent).1 notOlder.1,
        Nat.le_trans (keeps.gens isCurrent).2 notOlder.2⟩
      carries := fun place edit isEdit covers => ?_ }
    rcases record_cases isEdit with ⟨isCurrent, rfl, rfl⟩ | ⟨_, old⟩
    · have taken : flight.pass.gen place ≤ place.gen hook.bodyEditGen hook.metaEditGen :=
        place.gen_le (keeps.gens isCurrent)
      have missed : place.gen bodyEditGen metaEditGen ≤ flight.pass.gen place := covers
      omega
    · exact keeps.carries place edit old covers
  · rcases record_cases isEdit with ⟨_, rfl, rfl⟩ | ⟨differs, old⟩
    · refine .inr ⟨?_, ?_, Nat.lt_of_le_of_lt (place.gen_le pursuit.savedGens) newer⟩
      · exact (values place).trans (if_pos rfl)
      · exact (refs place).trans (if_pos rfl)
    · have isOther : place ≠ field := differs.resolve_left fun moved => moved rfl
      refine (pursuit.shown place edit old).imp_right fun held => ⟨?_, ?_, held.unsaved⟩
      · exact ((values place).trans (if_neg isOther)).trans held.state
      · exact ((refs place).trans (if_neg isOther)).trans held.ref
  · rcases record_cases isEdit with ⟨isCurrent, _⟩ | ⟨_, old⟩
    · have isOlder : epoch < hook.lifecycle := older
      omega
    · exact pursuit.left epoch place edit older old

theorem Pursuit.edit (pursuit : Pursuit conversion edits hook) (mounted : hook.mounted = true)
    (edit : Edit Doc) :
    Pursuit conversion (edits.record hook.lifecycle edit.field ⟨edit.value conversion,
        edit.field.gen (hook.edit conversion edit).bodyEditGen
          (hook.edit conversion edit).metaEditGen⟩)
      (hook.edit conversion edit) := by
  have closed : ¬hook.generated.isSome = true := by simp [pursuit.generated]
  have free : ¬(hook.generated.isSome = true ∨ hook.conflict.isSome = true) := by
    simp [pursuit.generated, pursuit.conflict]
  cases edit with
  | title title =>
    have isEdit : hook.edit conversion (.title title) = { hook with
          fields := { hook.fields with title }
          fieldsRef := { hook.fieldsRef with title }
          metaEditGen := hook.metaEditGen + 1
          timer := true } := (if_neg closed).trans (if_neg free)
    rw [isEdit]
    refine @pursuit_edit _ _ _ _ _ _ _ _ _ _ Field.title (.title title) pursuit mounted
      (Nat.lt_succ_self _) ⟨Nat.le_refl _, Nat.le_succ _⟩ (fun place => ?_) (fun place => ?_)
    · cases place <;> rfl
    · cases place <;> rfl
  | tags tags =>
    have isEdit : hook.edit conversion (.tags tags) = { hook with
          fields := { hook.fields with tags }
          fieldsRef := { hook.fieldsRef with tags }
          metaEditGen := hook.metaEditGen + 1
          timer := true } := (if_neg closed).trans (if_neg free)
    rw [isEdit]
    refine @pursuit_edit _ _ _ _ _ _ _ _ _ _ Field.tags (.tags tags) pursuit mounted
      (Nat.lt_succ_self _) ⟨Nat.le_refl _, Nat.le_succ _⟩ (fun place => ?_) (fun place => ?_)
    · cases place <;> rfl
    · cases place <;> rfl
  | aliases aliases =>
    have isEdit : hook.edit conversion (.aliases aliases) = { hook with
          fields := { hook.fields with aliases }
          fieldsRef := { hook.fieldsRef with aliases }
          metaEditGen := hook.metaEditGen + 1
          timer := true } := (if_neg closed).trans (if_neg free)
    rw [isEdit]
    refine @pursuit_edit _ _ _ _ _ _ _ _ _ _ Field.aliases (.aliases aliases) pursuit mounted
      (Nat.lt_succ_self _) ⟨Nat.le_refl _, Nat.le_succ _⟩ (fun place => ?_) (fun place => ?_)
    · cases place <;> rfl
    · cases place <;> rfl
  | slate value =>
    have isEdit : hook.edit conversion (.slate value) = { hook with
          editorValue := value
          bodyOverride := none
          bodyEditGen := hook.bodyEditGen + 1
          timer := true } := (if_neg closed).trans (if_neg free)
    rw [isEdit]
    refine @pursuit_edit _ _ _ _ _ _ _ _ _ _ Field.body
      (.body (conversion.slateToMarkdown value)) pursuit mounted
      (Nat.lt_succ_self _) ⟨Nat.le_succ _, Nat.le_refl _⟩ (fun place => ?_) (fun place => ?_)
    · cases place <;> rfl
    · cases place <;> rfl
  | markdown markdown =>
    have isEdit : hook.edit conversion (.markdown markdown) = { hook with
          bodyOverride := some markdown
          editorValue := conversion.markdownToSlate markdown
          bodyEditGen := hook.bodyEditGen + 1
          timer := true } := (if_neg closed).trans (if_neg free)
    rw [isEdit]
    refine @pursuit_edit _ _ _ _ _ _ _ _ _ _ Field.body (.body markdown) pursuit mounted
      (Nat.lt_succ_self _) ⟨Nat.le_succ _, Nat.le_refl _⟩ (fun place => ?_) (fun place => ?_)
    · cases place <;> rfl
    · cases place <;> rfl

end Edits

/-! ### Runs -/

structure Visits (Doc : Type) where
  hook : Hook Doc
  edits : Edits

section Runs

variable {Doc : Type} (conversion : Conversion Doc)

def Visits.recorded (visits : Visits Doc) (next : Hook Doc) : Step Doc → Edits
  | .edit edit =>
    if visits.hook.generated.isSome then visits.edits
    else visits.edits.record visits.hook.lifecycle edit.field
      ⟨edit.value conversion, edit.field.gen next.bodyEditGen next.metaEditGen⟩
  | _ => visits.edits

def visitsStep (visits : Visits Doc) (action : Step Doc) : Option (Visits Doc) :=
  (step conversion visits.hook action).map fun next =>
    ⟨next, visits.recorded conversion next action⟩

def Visits.mount (path : String) (canDraft online : Bool) (query : Query)
    (server : String → String) : Visits Doc :=
  ⟨Hook.mount conversion path canDraft online query server, fun _ _ => none⟩

def Successful (hook : Hook Doc) : Step Doc → Prop
  | .ensured result => ¬(result.created = false ∧ jsTrim result.page.body ≠ "")
  | .reach index _ => ((hook.requests[index]?).all fun request =>
    request.expectedRevision = hook.server request.path) = true
  | .ensureFails | .encryptFails | .lose _ | .lock | .beginGenerated _ => False
  | _ => True

/-- A page is left only when it may be; no edited field is blank when an unloaded page is saved. -/
def Careful (visits : Visits Doc) : Step Doc → Prop
  | .timer | .saveNow => visits.hook.flight = none → Firm visits.edits visits.hook
  | .hide | .unmount => visits.hook.timer = true → visits.hook.flight = none →
      Firm visits.edits visits.hook
  | .setOnline online => online = false → visits.hook.flight = none → Firm visits.edits visits.hook
  | .deliver query => visits.hook.renews query = true →
      (visits.hook.timer = true ∨ visits.hook.online = false) → visits.hook.flight = none →
        Firm visits.edits visits.hook
  | .navigate _ _ _ => MayLeave visits.hook
      ∧ (visits.hook.timer = true → visits.hook.flight = none → Firm visits.edits visits.hook)
  | .ensured _ => visits.hook.flight.map Flight.epoch = some visits.hook.lifecycle →
      Touched visits.edits visits.hook.lifecycle
  | .settle =>
    (visits.hook.saveRequested = true
        ∧ visits.hook.flight.map Flight.epoch = some visits.hook.lifecycle)
      ∨ visits.hook.lifecycle ∈ visits.hook.waiting → Firm visits.edits visits.hook
  | _ => True

instance decidableTouched (edits : Edits) (epoch : Nat) : Decidable (Touched edits epoch) :=
  decidable_of_iff (∀ field ∈ [Field.title, .tags, .aliases, .body],
      ((edits epoch field).all fun edit => edit.value ≠ field.blank) = true)
    (by
      constructor
      · intro holds field edit isEdit
        have member : field ∈ [Field.title, .tags, .aliases, .body] := by cases field <;> decide
        have checked := holds field member
        rw [isEdit] at checked
        simpa using checked
      · intro touched field _
        simpa [Option.all_eq_true] using touched field)

instance decidableFirm (edits : Edits) (hook : Hook Doc) : Decidable (Firm edits hook) :=
  inferInstanceAs (Decidable (hook.revision = "" → Touched edits hook.lifecycle))

instance decidableMayLeave (hook : Hook Doc) : Decidable (MayLeave hook) := by
  unfold MayLeave
  infer_instance

instance decidableSuccessful (hook : Hook Doc) (action : Step Doc) :
    Decidable (Successful hook action) := by
  cases action <;> unfold Successful <;> infer_instance

instance decidableCareful (visits : Visits Doc) (action : Step Doc) :
    Decidable (Careful visits action) := by
  cases action <;> unfold Careful <;> infer_instance

def Quiet (hook : Hook Doc) (epoch : Nat) : Prop :=
  ∀ flight, hook.flight = some flight → flight.epoch ≠ epoch
    ∧ ¬(epoch = hook.lifecycle ∧ epoch ∈ hook.waiting)

end Runs

section RunLemmas

variable {Doc : Type} {conversion : Conversion Doc} {hook : Hook Doc} {edits : Edits}

theorem rerender_frame (hook : Hook Doc) (query : Query) :
    (hook.rerender conversion query).flight = hook.flight
      ∧ (hook.rerender conversion query).lifecycle = hook.lifecycle
      ∧ (hook.rerender conversion query).online = hook.online
      ∧ ((hook.rerender conversion query).revision = "" → hook.revision = "") := by
  unfold Hook.rerender
  simp only
  split_ifs
  · exact ⟨rfl, rfl, rfl, id⟩
  · unfold Hook.sync
    split
    · exact ⟨rfl, rfl, rfl, id⟩
    · rename_i number page isPage
      split_ifs
      · exact ⟨rfl, rfl, rfl, id⟩
      · simp only
        split
        · exact ⟨rfl, rfl, rfl, id⟩
        · exact ⟨rfl, rfl, rfl, fun unloaded => absurd unloaded page.hasRevision⟩

theorem Pursuit.deliver (pursuit : Pursuit conversion edits hook) (query : Query)
    (firm : hook.renews query = true → (hook.timer = true ∨ hook.online = false) →
      hook.flight = none → Firm edits hook) :
    Pursuit conversion edits (hook.deliver conversion query) := by
  unfold Hook.deliver
  split_ifs with renews
  · have flushed := pursuit.flush fun pending => firm renews (.inl pending)
    refine (flushed.rerender query).saveOffline fun isOffline landed unloaded => ?_
    have ⟨sameFlight, sameLifecycle, sameOnline, revision⟩ :=
      @rerender_frame _ conversion (hook.flush conversion) query
    rw [sameFlight] at landed
    rw [sameOnline] at isOffline
    have wasUnloaded := revision unloaded
    rw [sameLifecycle]
    have ⟨_, _, _, _, _, _, _, _, _, isFrame⟩ := flush_frame conversion hook
    have wasLanded : hook.flight = none := by
      by_contra flies
      have ⟨flight, isFlight⟩ := ne_none_iff_exists'.1 flies
      have still := (flush_of_flight pursuit.toHolding isFlight).2.2
      rw [landed, isFlight] at still
      cases still
    rw [isFrame] at isOffline wasUnloaded ⊢
    exact firm renews (.inr isOffline) wasLanded wasUnloaded
  · exact pursuit.rerender query

theorem Pursuit.unmount (pursuit : Pursuit conversion edits hook)
    (firm : hook.timer = true → hook.flight = none → Firm edits hook) :
    Pursuit conversion edits { hook.flush conversion with mounted := false } := by
  refine { pursuit.flush firm with gone := fun _ => ?_ }
  show (hook.flush conversion).timer = false
  unfold Hook.flush
  split_ifs with pending
  · rw [pursuit.toHolding.doSave_eq]
    split
    · split_ifs <;> rfl
    · have ⟨_, _, _, _, _, _, isFrame⟩ :=
        savePass_frame conversion { hook with timer := false } hook.encrypted
      rw [isFrame]
  · simpa using pending

theorem pursuit_step {visits : Visits Doc} {action : Step Doc} {next : Hook Doc}
    (pursuit : Pursuit conversion visits.edits visits.hook)
    (successful : Successful visits.hook action) (careful : Careful visits action)
    (steps : step conversion visits.hook action = some next) :
    Pursuit conversion (visits.recorded conversion next action) next := by
  have taken := taken_of_step conversion steps
  cases action with
  | edit edit =>
    have closed : ¬visits.hook.generated.isSome = true := by simp [pursuit.generated]
    simp only [Visits.recorded]
    rw [if_neg closed, taken.2]
    exact pursuit.edit taken.1 edit
  | timer | saveNow =>
    rw [taken.2]
    exact pursuit.doSave careful
  | hide =>
    rw [taken.2]
    exact pursuit.flush careful
  | setOnline online =>
    rw [taken.2]
    have switched : Pursuit conversion visits.edits { visits.hook with online } := { pursuit with }
    exact switched.commit.saveOffline careful
  | commit =>
    rw [taken.2]
    exact pursuit.commit
  | deliver query =>
    rw [taken.2]
    exact pursuit.deliver query careful
  | decrypted body =>
    rw [taken.2]
    have opened : Pursuit conversion visits.edits { visits.hook with plainBody := some body } :=
      { pursuit with }
    exact opened.commit.sync
  | navigate path canDraft query =>
    rw [taken.2]
    exact pursuit.navigate path canDraft query careful.1 careful.2
  | unmount =>
    rw [taken.2]
    exact pursuit.unmount careful
  | setReadonly =>
    rw [taken.2]
    exact pursuit.mono (fun _ _ _ kept => kept.append) (accepted_append pursuit.accepted rfl)
  | drained =>
    have ⟨generated, isGenerated, _⟩ := taken
    exact nomatch pursuit.generated.symm.trans isGenerated
  | writeGenerated =>
    have ⟨token, path, revision, isGenerated, _⟩ := taken
    exact nomatch pursuit.generated.symm.trans isGenerated
  | cancelGenerated =>
    rw [show next = _ from taken]
    unfold Hook.cancelGenerated
    simp only [pursuit.generated, any_none, Bool.false_eq_true, if_false]
    exact pursuit
  | ensured result =>
    obtain ⟨flight, isFlight, _, rfl⟩ := taken
    have created : Pursuit conversion visits.edits { visits.hook with
          server := update visits.hook.server result.path result.page.revision } :=
      { pursuit with }
    refine created.afterEnsure isFlight successful fun isCurrent => careful ?_
    rw [isFlight, map_some]
    exact congrArg some isCurrent.symm
  | encrypted body =>
    obtain ⟨epoch, pass, path, revision, isFlight, rfl⟩ := taken
    have encrypts := (pursuit.flight _ isFlight).encrypting path revision rfl
    exact pursuit.send isFlight fun _ => ⟨body, rfl, fun plain => nomatch encrypts.symm.trans plain⟩
  | reach index page =>
    obtain ⟨request, found, _, rfl⟩ := taken
    simp only [Successful, found, all_some, decide_eq_true_eq] at successful
    unfold Hook.reach
    simp only
    rw [if_pos successful]
    have answered := pursuit.setRequest found request.handled
      (fun given isGiven => ⟨page, (some.inj isGiven).symm⟩)
    exact { answered with }
  | answer index =>
    obtain ⟨request, answer, found, isAnswer, _, rfl⟩ := taken
    exact pursuit.handle found isAnswer
  | settle =>
    obtain ⟨flight, isFlight, passed, rfl⟩ := taken
    refine pursuit.settle isFlight passed fun runsOn => careful ?_
    rw [isFlight, map_some, some.injEq, @eq_comm _ flight.epoch]
    exact runsOn
  | reload =>
    have conflicts : visits.hook.conflict.isSome = true := taken.1
    rw [pursuit.conflict] at conflicts
    cases conflicts
  | reloaded | reloadFails =>
    have ⟨epoch, found, _⟩ := taken
    rw [pursuit.reloads] at found
    cases found
  | foreignWrite path revision =>
    rw [show next = _ from taken]
    exact { pursuit with }
  | lock | beginGenerated | ensureFails | encryptFails | lose => exact successful.elim

theorem pursuit_mount (path : String) (canDraft online : Bool) (query : Query)
    (server : String → String) :
    Pursuit conversion (Visits.mount conversion path canDraft online query server).edits
      (Visits.mount conversion path canDraft online query server).hook := by
  refine Pursuit.saveOffline ?_ fun _ _ _ _ _ isEdit => nomatch isEdit
  apply Pursuit.sync
  apply Pursuit.commit
  apply Pursuit.take
  exact
    { generated := rfl
      conflict := rfl
      reloads := rfl
      accepted := fun _ member => nomatch member
      blank := fun _ => ⟨rfl, rfl⟩
      future := fun _ _ _ => rfl
      gens := fun _ _ isEdit => nomatch isEdit
      savedGens := ⟨Nat.le_refl _, Nat.le_refl _⟩
      flight := fun _ isFlight => nomatch isFlight
      shown := fun _ _ isEdit => nomatch isEdit
      gone := fun isGone => nomatch isGone
      pursued := fun _ _ isEdit => nomatch isEdit
      left := fun _ _ _ _ isEdit => nomatch isEdit }

theorem Pursuit.kept_of_quiet (pursuit : Pursuit conversion edits hook) {epoch : Nat} {field : Field}
    {edit : LastEdit} (isEdit : edits epoch field = some edit)
    (isLeft : epoch < hook.lifecycle ∨ hook.mounted = false) (quiet : Quiet hook epoch) :
    Kept hook.requests hook.idle epoch field edit := by
  have uncovered : ¬Covered hook.flight epoch field edit := by
    rintro ⟨flight, isFlight, isEpoch, _⟩
    exact (quiet flight isFlight).1 isEpoch
  by_cases older : epoch < hook.lifecycle
  · exact (pursuit.left epoch field edit older isEdit).resolve_right uncovered
  · have isGone := isLeft.resolve_left older
    have isShown : epoch = hook.lifecycle := by
      by_contra differs
      have later : hook.lifecycle < epoch := by omega
      rw [pursuit.future epoch field later] at isEdit
      cases isEdit
    subst isShown
    rcases pursuit.pursued field edit isEdit with kept | covered | pending | ⟨flight, isFlight, awaited⟩
    · exact kept
    · exact absurd covered uncovered
    · exact nomatch (pursuit.gone isGone).symm.trans pending
    · rcases awaited with ⟨_, isEpoch⟩ | waits
      · exact absurd isEpoch (quiet flight isFlight).1
      · exact absurd ⟨rfl, waits⟩ (quiet flight isFlight).2

end RunLemmas

/-! ### Leaving a page -/

/-- While requests succeed, the last edits of a page are kept once its saves are over. -/
theorem edits_survive_leaving {Doc : Type} {conversion : Conversion Doc} {path : String}
    {canDraft online : Bool} {query : Query} {server : String → String} {actions : List (Step Doc)}
    {visits : Visits Doc}
    (successful : Throughout (visitsStep conversion) (fun before => Successful before.hook)
      (Visits.mount conversion path canDraft online query server) actions)
    (careful : Throughout (visitsStep conversion) Careful
      (Visits.mount conversion path canDraft online query server) actions)
    (runs : run (visitsStep conversion) (Visits.mount conversion path canDraft online query server)
      actions = some visits) :
    ∀ epoch field edit, visits.edits epoch field = some edit →
      epoch < visits.hook.lifecycle ∨ visits.hook.mounted = false → Quiet visits.hook epoch →
        Kept visits.hook.requests visits.hook.idle epoch field edit := by
  have keeps : ∀ before action after, Pursuit conversion before.edits before.hook →
      Successful before.hook action ∧ Careful before action →
      visitsStep conversion before action = some after →
        Pursuit conversion after.edits after.hook := by
    intro before action after pursuit both steps
    obtain ⟨next, nextStep, rfl⟩ := map_eq_some_iff.1 steps
    exact pursuit_step pursuit both.1 both.2 nextStep
  have pursuit : Pursuit conversion visits.edits visits.hook :=
    invariant_of_throughout keeps (pursuit_mount path canDraft online query server)
      (throughout_and successful careful) runs
  intro epoch field edit isEdit isLeft quiet
  exact pursuit.kept_of_quiet isEdit isLeft quiet

def sampleVisits : Visits String :=
  Visits.mount plainText "a.md" false true (samplePage "a1" (by decide) "A") fun _ => "a1"

def leftInTime : List (Step String) :=
  [.commit, .edit (.title "x"), .navigate "b.md" false (samplePage "b1" (by decide) "B"),
    .reach 0 ⟨"a2", by decide, some "x", none, none, "", false, false⟩, .answer 0, .settle]

theorem edits_survive_leaving_inTime :
    ∃ visits, run (visitsStep plainText) sampleVisits leftInTime = some visits
      ∧ visits.edits 0 .title = some ⟨.title "x", 1⟩
      ∧ Kept visits.hook.requests visits.hook.idle 0 .title ⟨.title "x", 1⟩ := by
  have ends : ((run (visitsStep plainText) sampleVisits leftInTime).map fun visits =>
      (visits.edits 0 .title, visits.hook.lifecycle, visits.hook.flight))
        = some (some ⟨.title "x", 1⟩, 1, none) := by decide
  have ⟨visits, isRun, isEnd⟩ := map_eq_some_iff.1 ends
  simp only [Prod.mk.injEq] at isEnd
  refine ⟨visits, isRun, isEnd.1, ?_⟩
  refine edits_survive_leaving (by decide) (by decide) isRun 0 .title _ isEnd.1 ?_ ?_
  · rw [isEnd.2.1]
    exact .inl Nat.one_pos
  · intro flight isFlight
    exact nomatch isEnd.2.2.symm.trans isFlight

/-- A second title is typed while the first is saved; the page is left before that save is over. -/
def leftTooEarly : List (Step String) := [.commit, .edit (.title "x"), .timer, .edit (.title "y"),
    .navigate "b.md" false (samplePage "b1" (by decide) "B"),
    .reach 0 ⟨"a2", by decide, some "x", none, none, "", false, false⟩, .answer 0, .settle]

/-- The save that the path change asks for is dropped with the flight it was queued behind. -/
theorem queued_edit_lost :
    Throughout (visitsStep plainText) (fun before => Successful before.hook) sampleVisits
        leftTooEarly
      ∧ ∃ visits, run (visitsStep plainText) sampleVisits leftTooEarly = some visits
        ∧ visits.edits 0 .title = some ⟨.title "y", 2⟩ ∧ 0 < visits.hook.lifecycle
        ∧ visits.hook.flight = none ∧ visits.hook.waiting = []
        ∧ ¬Kept visits.hook.requests visits.hook.idle 0 .title ⟨.title "y", 2⟩ := by
  have ends : ((run (visitsStep plainText) sampleVisits leftTooEarly).map fun visits =>
      (visits.edits 0 .title, visits.hook.lifecycle, visits.hook.flight, visits.hook.waiting,
        decide (Kept visits.hook.requests visits.hook.idle 0 .title ⟨.title "y", 2⟩)))
        = some (some ⟨.title "y", 2⟩, 1, none, [], false) := by decide
  have ⟨visits, isRun, isEnd⟩ := map_eq_some_iff.1 ends
  simp only [Prod.mk.injEq, decide_eq_false_iff_not] at isEnd
  refine ⟨by decide, visits, isRun, isEnd.1, ?_, isEnd.2.2⟩
  rw [isEnd.2.1]
  exact Nat.one_pos

end Clepsydra.Editor
