import Clepsydra.Editor.PageEditor

/-!
Owns: where the values of an update request come from, visit by visit.

Proves: while every save begins on a page taken over whole, requests carry what belongs to their own
page.
-/

namespace Clepsydra.Editor

open Library Library.Transitions List Option

/-! ### Sources -/

/-- Its path, what was typed, what the server returned, and the bodies opened in plain. -/
inductive Source where
  | visited (path : String)
  | typed (value : Value)
  | returned (path : String) (page : PageData)
  | opened (body : String)
deriving DecidableEq

abbrev Log := List (Nat × Source)

def PageData.has (page : PageData) : Value → Prop
  | .title title => page.fields.title = title
  | .tags tags => page.fields.tags = tags
  | .aliases aliases => page.fields.aliases = aliases
  | .body body => page.body = body

def Known (log : Log) (epoch : Nat) (value : Value) : Prop :=
  (epoch, .typed value) ∈ log ∨ ∃ path page, (epoch, .returned path page) ∈ log ∧ page.has value

def BodyKnown {Doc : Type} (conversion : Conversion Doc) (log : Log) (epoch : Nat) (body : String) :
    Prop :=
  ∃ source, ((epoch, .typed (.body source)) ∈ log ∨ (epoch, .opened source) ∈ log)
    ∧ (body = source ∨ body = conversion.slateToMarkdown (conversion.markdownToSlate source))

def Returned (log : Log) (epoch : Nat) (revision : String) : Prop :=
  ∃ path page, (epoch, .returned path page) ∈ log ∧ page.revision = revision

def PathOf (log : Log) (epoch : Nat) (path : String) : Prop :=
  (epoch, .visited path) ∈ log ∨ ∃ page, (epoch, .returned path page) ∈ log

structure FieldsKnown (log : Log) (epoch : Nat) (fields : PageFields) : Prop where
  title : Known log epoch (.title fields.title)
  tags : Known log epoch (.tags fields.tags)
  aliases : Known log epoch (.aliases fields.aliases)

structure FieldsOr (blank : Prop) (log : Log) (epoch : Nat) (fields : PageFields) : Prop where
  title : Known log epoch (.title fields.title) ∨ (fields.title = "" ∧ blank)
  tags : Known log epoch (.tags fields.tags) ∨ (fields.tags = [] ∧ blank)
  aliases : Known log epoch (.aliases fields.aliases) ∨ (fields.aliases = [] ∧ blank)

section Own

variable {Doc : Type} (conversion : Conversion Doc)

structure PassOwn (log : Log) (pass : Pass) : Prop where
  title : pass.titleChanged = true → Known log pass.epoch (.title pass.fields.title)
  tags : pass.tagsChanged = true → Known log pass.epoch (.tags pass.fields.tags)
  aliases : pass.aliasesChanged = true → Known log pass.epoch (.aliases pass.fields.aliases)
  body : pass.bodyChanged = true → BodyKnown conversion log pass.epoch pass.body

def Sender.epoch : Sender → Nat
  | .save pass => pass.epoch
  | .readonly epoch => epoch
  | .generated _ epoch => epoch

structure RequestOwn (log : Log) (request : Request) : Prop where
  title : ∀ title, request.title = some title →
    Known log request.sender.epoch (.title (title.getD ""))
  tags : ∀ tags, request.tags = some tags → Known log request.sender.epoch (.tags tags)
  aliases : ∀ aliases, request.aliases = some aliases →
    Known log request.sender.epoch (.aliases aliases)
  body : ∀ body, request.body = some body → ∃ pass, request.sender = .save pass
    ∧ BodyKnown conversion log pass.epoch pass.body ∧ (pass.encrypted = false → body = pass.body)
  path : PathOf log request.sender.epoch request.path
  revision : Returned log request.sender.epoch request.expectedRevision

def Stage.sends : Stage → Bool
  | .encrypting _ _ | .requesting _ => true
  | .ensuring | .passed => false

structure FlightOwn (log : Log) (lifecycle : Nat) (revision : String) (requests : List Request)
    (flight : Flight) : Prop where
  epoch : flight.epoch = flight.pass.epoch
  recent : flight.epoch ≤ lifecycle
  loaded : flight.epoch = lifecycle → flight.stage.sends = true → revision ≠ ""
  pass : PassOwn conversion log flight.pass
  path : PathOf log flight.pass.epoch flight.pass.path
  encrypting : ∀ path revision, flight.stage = .encrypting path revision →
    flight.pass.encrypted = true ∧ flight.pass.bodyChanged = true
      ∧ PathOf log flight.pass.epoch path ∧ Returned log flight.pass.epoch revision
  sent : ∀ index, flight.stage = .requesting index →
    (requests[index]?).map Request.sender = some (.save flight.pass)

structure GeneratedOwn (log : Log) (lifecycle : Nat) (revision : String) (generated : Generated) :
    Prop where
  recent : generated.epoch ≤ lifecycle
  loaded : generated.epoch = lifecycle → generated.stage ≠ .draining → revision ≠ ""
  ready : ∀ path revision, generated.stage = .ready path revision →
    PathOf log generated.epoch path ∧ Returned log generated.epoch revision

structure BodyOwn (log : Log) (epoch : Nat) (value : Doc) (bodyOverride : Option String) :
    Prop where
  value : BodyKnown conversion log epoch (conversion.slateToMarkdown value)
  override : ∀ body, bodyOverride = some body → BodyKnown conversion log epoch body

def TokenOwn (tokens : Nat) (generated : Option Generated) (request : Request) : Prop :=
  ∀ token epoch, request.sender = .generated token epoch → token < tokens
    ∧ ∀ current, generated = some current → current.token = token →
      current.epoch = epoch ∧ current.stage ≠ .draining

structure Apart (log : Log) (hook : Hook Doc) : Prop where
  path : (hook.lifecycle, .visited hook.path) ∈ log
  page : ∀ page, hook.page = some page → ∃ path, (hook.lifecycle, .returned path page.2) ∈ log
  plain : ∀ body, hook.plainBody = some body → (hook.lifecycle, .opened body) ∈ log
  savePath : PathOf log hook.lifecycle hook.savePath
  fields : FieldsOr (hook.revision = "") log hook.lifecycle hook.fields
  fieldsRef : FieldsOr True log hook.lifecycle hook.fieldsRef
  synced : hook.fieldsRef = hook.fields ∨ FieldsKnown log hook.lifecycle hook.fields
  unsaved : hook.revision = "" → hook.savedFields = .blank
  body : hook.bodyEditGen ≠ 0 →
    BodyOwn conversion log hook.lifecycle hook.editorValue hook.bodyOverride
  revision : hook.revision = "" ∨ Returned log hook.lifecycle hook.revision
  flight : ∀ flight, hook.flight = some flight →
    FlightOwn conversion log hook.lifecycle hook.revision hook.requests flight
  requests : ∀ request ∈ hook.requests, RequestOwn conversion log request
  generated : ∀ generated, hook.generated = some generated →
    GeneratedOwn log hook.lifecycle hook.revision generated
  tokens : ∀ request ∈ hook.requests, TokenOwn hook.tokens hook.generated request
  numbered : ∀ generated, hook.generated = some generated → generated.token < hook.tokens

structure Settled (hook : Hook Doc) : Prop where
  refs : hook.fieldsRef = hook.fields
  loaded : hook.revision ≠ "" ∨ (hook.isDraftRef && hook.ensureRef) = true
    ∨ ∀ encrypted, (hook.snapshot conversion encrypted).changed = false

end Own

/-! ### A longer log -/

section Mono

variable {Doc : Type} {conversion : Conversion Doc} {log more : Log} {epoch : Nat}

theorem Known.append {value : Value} (known : Known log epoch value) :
    Known (log ++ more) epoch value := by
  rcases known with typed | ⟨path, page, returned, has⟩
  · exact .inl (mem_append_left _ typed)
  · exact .inr ⟨path, page, mem_append_left _ returned, has⟩

theorem BodyKnown.append {body : String} (known : BodyKnown conversion log epoch body) :
    BodyKnown conversion (log ++ more) epoch body := by
  have ⟨source, member, same⟩ := known
  exact ⟨source, member.imp (mem_append_left _) (mem_append_left _), same⟩

theorem Returned.append {revision : String} (returned : Returned log epoch revision) :
    Returned (log ++ more) epoch revision := by
  have ⟨path, page, member, same⟩ := returned
  exact ⟨path, page, mem_append_left _ member, same⟩

theorem PathOf.append {path : String} (isPath : PathOf log epoch path) :
    PathOf (log ++ more) epoch path := by
  rcases isPath with visited | ⟨page, returned⟩
  · exact .inl (mem_append_left _ visited)
  · exact .inr ⟨page, mem_append_left _ returned⟩

variable {fields : PageFields}

theorem FieldsKnown.append (known : FieldsKnown log epoch fields) :
    FieldsKnown (log ++ more) epoch fields :=
  ⟨known.title.append, known.tags.append, known.aliases.append⟩

theorem FieldsOr.append {blank : Prop} (known : FieldsOr blank log epoch fields) :
    FieldsOr blank (log ++ more) epoch fields :=
  ⟨known.title.imp_left Known.append, known.tags.imp_left Known.append,
    known.aliases.imp_left Known.append⟩

theorem PassOwn.append {pass : Pass} (own : PassOwn conversion log pass) :
    PassOwn conversion (log ++ more) pass :=
  ⟨fun changed => (own.title changed).append, fun changed => (own.tags changed).append,
    fun changed => (own.aliases changed).append, fun changed => (own.body changed).append⟩

theorem RequestOwn.append {request : Request} (own : RequestOwn conversion log request) :
    RequestOwn conversion (log ++ more) request := by
  refine ⟨fun _ sent => (own.title _ sent).append, fun _ sent => (own.tags _ sent).append,
    fun _ sent => (own.aliases _ sent).append, fun body sent => ?_, own.path.append,
    own.revision.append⟩
  have ⟨pass, isPass, known, same⟩ := own.body body sent
  exact ⟨pass, isPass, known.append, same⟩

theorem FlightOwn.append {lifecycle : Nat} {revision : String} {requests : List Request}
    {flight : Flight} (own : FlightOwn conversion log lifecycle revision requests flight) :
    FlightOwn conversion (log ++ more) lifecycle revision requests flight := by
  refine ⟨own.epoch, own.recent, own.loaded, own.pass.append, own.path.append, ?_, own.sent⟩
  intro path revision isStage
  have ⟨encrypted, changed, isPath, returned⟩ := own.encrypting path revision isStage
  exact ⟨encrypted, changed, isPath.append, returned.append⟩

theorem GeneratedOwn.append {lifecycle : Nat} {revision : String} {generated : Generated}
    (own : GeneratedOwn log lifecycle revision generated) :
    GeneratedOwn (log ++ more) lifecycle revision generated :=
  ⟨own.recent, own.loaded, fun path revision isStage =>
    ⟨(own.ready path revision isStage).1.append, (own.ready path revision isStage).2.append⟩⟩

theorem BodyOwn.append {value : Doc} {bodyOverride : Option String}
    (own : BodyOwn conversion log epoch value bodyOverride) :
    BodyOwn conversion (log ++ more) epoch value bodyOverride :=
  ⟨own.value.append, fun body found => (own.override body found).append⟩

theorem Apart.append {hook : Hook Doc}
    (apart : Apart conversion log hook) : Apart conversion (log ++ more) hook where
  path := mem_append_left _ apart.path
  page := fun page found =>
    (apart.page page found).imp fun _ returned => mem_append_left _ returned
  plain := fun body found => mem_append_left _ (apart.plain body found)
  savePath := apart.savePath.append
  fields := apart.fields.append
  fieldsRef := apart.fieldsRef.append
  synced := apart.synced.imp_right FieldsKnown.append
  unsaved := apart.unsaved
  body := fun edited => (apart.body edited).append
  revision := apart.revision.imp_right Returned.append
  flight := fun flight found => (apart.flight flight found).append
  requests := fun request member => (apart.requests request member).append
  generated := fun generated found => (apart.generated generated found).append
  tokens := apart.tokens
  numbered := apart.numbered

theorem fieldsKnown_returned {path : String} {page : PageData}
    (returned : (epoch, .returned path page) ∈ log) : FieldsKnown log epoch page.fields :=
  ⟨.inr ⟨path, page, returned, rfl⟩, .inr ⟨path, page, returned, rfl⟩, .inr ⟨path, page, returned, rfl⟩⟩

theorem FieldsKnown.or {blank : Prop} (known : FieldsKnown log epoch fields) :
    FieldsOr blank log epoch fields :=
  ⟨.inl known.title, .inl known.tags, .inl known.aliases⟩

theorem FieldsOr.weaken {blank weaker : Prop} (known : FieldsOr blank log epoch fields)
    (weakens : blank → weaker) :
    FieldsOr weaker log epoch fields :=
  ⟨known.title.imp_right (And.imp_right weakens), known.tags.imp_right (And.imp_right weakens),
    known.aliases.imp_right (And.imp_right weakens)⟩

end Mono

/-! ### Saves -/

section Saves

variable {Doc : Type} {conversion : Conversion Doc} {log : Log} {hook : Hook Doc}
  {revision : String} {flight : Flight}

theorem FlightOwn.moreRequests {lifecycle : Nat} {requests : List Request}
    (own : FlightOwn conversion log lifecycle revision requests flight) (more : List Request) :
    FlightOwn conversion log lifecycle revision (requests ++ more) flight := by
  refine { own with sent := fun index isStage => ?_ }
  have before := own.sent index isStage
  have ⟨request, isRequest, _⟩ := map_eq_some_iff.1 before
  rw [getElem?_append_left (List.getElem?_eq_some_iff.1 isRequest).1, before]

variable {pass : Pass}

theorem Apart.inFlight (apart : Apart conversion log hook) {stage : Stage}
    (own : FlightOwn conversion log hook.lifecycle hook.revision hook.requests
      ⟨pass.epoch, pass, stage⟩) : Apart conversion log (hook.inFlight pass stage) := by
  refine { apart with flight := fun flight found => ?_ }
  rw [← some.inj found]
  exact own

structure PassReady (log : Log) (hook : Hook Doc) (pass : Pass) : Prop where
  own : PassOwn conversion log pass
  path : PathOf log pass.epoch pass.path
  recent : pass.epoch ≤ hook.lifecycle
  loaded : pass.epoch = hook.lifecycle → hook.revision ≠ ""

theorem passOwn_snapshot (apart : Apart conversion log hook) (settled : Settled conversion hook)
    (encrypted : Bool) : PassOwn conversion log (hook.snapshot conversion encrypted) := by
  have blank : hook.revision = "" → hook.savedFields = .blank := apart.unsaved
  refine ⟨fun changed => ?_, fun changed => ?_, fun changed => ?_, fun changed => ?_⟩
  · rcases settled.refs ▸ apart.fields.title with known | ⟨isBlank, unloaded⟩
    · exact known
    · simp [Pass.titleChanged, Hook.snapshot, blank unloaded, isBlank, PageFields.blank] at changed
  · rcases settled.refs ▸ apart.fields.tags with known | ⟨isBlank, unloaded⟩
    · exact known
    · simp [Pass.tagsChanged, Hook.snapshot, blank unloaded, isBlank, PageFields.blank] at changed
  · rcases settled.refs ▸ apart.fields.aliases with known | ⟨isBlank, unloaded⟩
    · exact known
    · simp [Pass.aliasesChanged, Hook.snapshot, blank unloaded, isBlank, PageFields.blank] at changed
  · have dirty : hook.bodyDirty = true := by
      simp only [Pass.bodyChanged, Hook.snapshot, Bool.and_eq_true] at changed
      exact changed.1
    have edited : hook.bodyEditGen ≠ 0 := by
      simp only [Hook.bodyDirty, decide_eq_true_eq] at dirty
      omega
    have own := apart.body edited
    show BodyKnown conversion log hook.lifecycle _
    simp only [Hook.snapshot, dirty, if_true]
    cases isOverride : hook.bodyOverride with
    | none => exact own.value
    | some body => exact own.override body isOverride

variable {path : String}

theorem requestOwn_request {body : Option String} (own : PassOwn conversion log pass)
    (isPath : PathOf log pass.epoch path) (returned : Returned log pass.epoch revision)
    (isBody : ∀ sent, body = some sent → pass.bodyChanged = true
      ∧ (pass.encrypted = false → sent = pass.body)) :
    RequestOwn conversion log (pass.request path revision body) := by
  refine ⟨fun title sent => ?_, fun tags sent => ?_, fun aliases sent => ?_, fun sent isSent => ?_,
    isPath, returned⟩
  · simp only [Pass.request] at sent
    split_ifs at sent with changed isEmpty
    · rw [← some.inj sent, getD_none, ← isEmpty]
      exact own.title changed
    · rw [← some.inj sent]
      exact own.title changed
  · simp only [Pass.request] at sent
    split_ifs at sent with changed
    rw [← some.inj sent]
    exact own.tags changed
  · simp only [Pass.request] at sent
    split_ifs at sent with changed
    rw [← some.inj sent]
    exact own.aliases changed
  · have ⟨changed, same⟩ := isBody sent isSent
    exact ⟨pass, rfl, own.body changed, same⟩

variable (apart : Apart conversion log hook)

include apart

theorem Apart.addRequest {request : Request} (own : RequestOwn conversion log request)
    (tokenOwn : TokenOwn hook.tokens hook.generated request) :
    Apart conversion log { hook with requests := hook.requests ++ [request] } := by
  refine { apart with
    flight := fun flight found => (apart.flight flight found).moreRequests _
    requests := fun other member => ?_
    tokens := fun other member => ?_ }
  · rcases mem_append.1 member with old | new
    · exact apart.requests other old
    · rw [mem_singleton.1 new]
      exact own
  · rcases mem_append.1 member with old | new
    · exact apart.tokens other old
    · rw [mem_singleton.1 new]
      exact tokenOwn

theorem Apart.send {body : Option String} (ready : @PassReady Doc conversion log hook pass)
    (isPath : PathOf log pass.epoch path) (returned : Returned log pass.epoch revision)
    (isBody : ∀ sent, body = some sent → pass.bodyChanged = true
      ∧ (pass.encrypted = false → sent = pass.body)) :
    Apart conversion log (hook.send pass path revision body) := by
  have sent := apart.addRequest (requestOwn_request ready.own isPath returned isBody)
    fun _ _ isSender => nomatch isSender
  refine sent.inFlight ⟨rfl, ready.recent, fun isCurrent _ => ready.loaded isCurrent, ready.own,
    ready.path, fun _ _ isStage => (nomatch isStage), fun index isStage => ?_⟩
  rw [← Stage.requesting.inj isStage]
  simp [Pass.request]

theorem Apart.proceed (ready : @PassReady Doc conversion log hook pass)
    (isPath : PathOf log pass.epoch path) (returned : Returned log pass.epoch revision) :
    Apart conversion log (hook.proceed pass path revision) := by
  unfold Hook.proceed
  split_ifs with encrypts changed
  · refine apart.inFlight ⟨rfl, ready.recent, fun isCurrent _ => ready.loaded isCurrent, ready.own,
      ready.path, fun other otherRevision isStage => ?_, fun index isStage => nomatch isStage⟩
    obtain ⟨rfl, rfl⟩ := Stage.encrypting.inj isStage
    rw [Bool.and_eq_true] at encrypts
    exact ⟨encrypts.2, encrypts.1, isPath, returned⟩
  · refine apart.send ready isPath returned fun sent isSent => ?_
    exact ⟨changed, fun _ => (some.inj isSent).symm⟩
  · exact apart.send ready isPath returned fun sent isSent => nomatch isSent

theorem Apart.rest {stage : Stage} (own : PassOwn conversion log pass)
    (path : PathOf log pass.epoch pass.path) (recent : pass.epoch ≤ hook.lifecycle)
    (quiet : stage.sends = false) :
    Apart conversion log (hook.inFlight pass stage) := by
  refine apart.inFlight ⟨rfl, recent, fun _ isSending => ?_, own, path, fun _ _ isStage => ?_,
    fun _ isStage => ?_⟩
  · rw [quiet] at isSending
    cases isSending
  · rw [show stage = _ from isStage] at quiet
    cases quiet
  · rw [show stage = _ from isStage] at quiet
    cases quiet

theorem Apart.markSaved (pass : Pass) :
    Apart conversion log (hook.markSaved pass) := by
  refine { apart with body := fun edited => ⟨(apart.body edited).value, fun body found => ?_⟩ }
  simp only [Hook.markSaved] at found
  split_ifs at found
  exact (apart.body edited).override body found

theorem Apart.savePass (settled : Settled conversion hook) (encrypted : Bool) :
    Apart conversion log (hook.savePass conversion encrypted) := by
  have own := passOwn_snapshot apart settled encrypted
  have cleared : Apart conversion log { hook with saveRequested := false } := { apart with }
  unfold Hook.savePass
  simp only
  split_ifs with idle draft
  · have marked := cleared.markSaved (hook.snapshot conversion encrypted)
    have logged : Apart conversion log
        { ({ hook with saveRequested := false }.markSaved (hook.snapshot conversion encrypted)) with
          idle := hook.idle ++ [hook.snapshot conversion encrypted] } := { marked with }
    exact logged.rest own apart.savePath (Nat.le_refl _) rfl
  · exact cleared.rest own apart.savePath (Nat.le_refl _) rfl
  · have loaded : hook.revision ≠ "" := by
      rcases settled.loaded with loaded | isDraft | nothing
      · exact loaded
      · exact absurd isDraft draft
      · exact absurd (nothing encrypted) idle
    exact cleared.proceed ⟨own, apart.savePath, Nat.le_refl _, fun _ => loaded⟩ apart.savePath
      (apart.revision.resolve_left loaded)

omit apart

def Hook.begins (hook : Hook Doc) : Bool :=
  !hook.holdsSaves && hook.conflict.isNone && hook.flight.isNone

theorem isSome_flight_savePass (hook : Hook Doc) (encrypted : Bool) :
    (hook.savePass conversion encrypted).flight.isSome = true := by
  unfold Hook.savePass Hook.proceed
  simp only
  split_ifs <;> rfl

theorem begins_of_flight {hook : Hook Doc} (flies : hook.flight.isSome = true) :
    hook.begins = false := by
  have ⟨flight, isFlight⟩ := isSome_iff_exists.1 flies
  simp [Hook.begins, isFlight]

theorem begins_doSave (hook : Hook Doc) : (hook.doSave conversion).begins = false := by
  unfold Hook.doSave
  simp only
  split_ifs with holds conflicts
  · simp [Hook.begins, holds]
  · have ⟨revision, isConflict⟩ := isSome_iff_exists.1 conflicts
    simp [Hook.begins, isConflict]
  · cases found : hook.flight with
    | none => exact begins_of_flight (isSome_flight_savePass _ _)
    | some flight =>
      simp only
      split_ifs
      · exact begins_of_flight rfl
      · exact begins_of_flight rfl

theorem Apart.doSave (apart : Apart conversion log hook)
    (settled : hook.begins = true → Settled conversion hook) :
    Apart conversion log (hook.doSave conversion) := by
  have stopped : Apart conversion log { hook with timer := false } := { apart with }
  unfold Hook.doSave
  simp only
  split_ifs with holds conflicts
  · exact apart
  · exact stopped
  · split
    · split_ifs
      · exact { stopped with }
      · exact { stopped with }
    · rename_i none
      have begins : hook.begins = true := by
        simp only [Bool.not_eq_true] at holds conflicts
        simp [Hook.begins, holds, none, isSome_eq_false_iff.1 conflicts]
      exact stopped.savePass ⟨(settled begins).refs, (settled begins).loaded⟩ _

theorem Apart.wake : ∀ (epochs : List Nat) {hook : Hook Doc}, Apart conversion log hook →
    (hook.lifecycle ∈ epochs → hook.begins = true → Settled conversion hook) →
    Apart conversion log (hook.wake conversion epochs)
  | [], _, apart, _ => apart
  | epoch :: rest, hook, apart, settled => by
    unfold Hook.wake
    by_cases isShown : hook.lifecycle = epoch
    · rw [if_pos isShown]
      apply Apart.wake rest
      · apply apart.doSave
        exact settled (by rw [isShown]; exact mem_cons_self)
      · intro _ begins
        rw [begins_doSave] at begins
        cases begins
    · rw [if_neg isShown]
      exact Apart.wake rest apart fun member => settled (mem_cons_of_mem _ member)

variable (apart : Apart conversion log hook)

include apart

theorem Apart.settle (flight : Flight)
    (settled : (hook.saveRequested ∧ hook.lifecycle = flight.epoch) ∨ hook.lifecycle ∈ hook.waiting →
      Settled conversion hook) : Apart conversion log (hook.settle conversion flight) := by
  unfold Hook.settle
  split_ifs with again
  · simp only [Bool.and_eq_true, decide_eq_true_eq] at again
    exact apart.savePass (settled (.inl again)) _
  · refine Apart.wake hook.waiting { apart with flight := fun _ found => nomatch found } ?_
    intro isWaiting _
    exact ⟨(settled (.inr isWaiting)).refs, (settled (.inr isWaiting)).loaded⟩

theorem Apart.cancelGenerated :
    Apart conversion log hook.cancelGenerated := by
  unfold Hook.cancelGenerated
  split_ifs
  · refine { apart with
      generated := fun _ found => (nomatch found)
      tokens := fun request member token epoch isSender => ?_
      numbered := fun _ found => (nomatch found) }
    exact ⟨(apart.tokens request member token epoch isSender).1, fun _ found => nomatch found⟩
  · exact apart

theorem Apart.throws
    (own : FlightOwn conversion log hook.lifecycle hook.revision hook.requests flight)
    (conflict : Option String) : Apart conversion log (hook.throws flight conflict) := by
  have cleared : Apart conversion log { hook with saveRequested := false } := { apart with }
  have failed : Apart conversion log { hook with
        saveRequested := false
        timer := false
        conflict := conflict.or hook.conflict
        flight := none
        waiting := [] } := { apart with flight := fun _ found => nomatch found }
  unfold Hook.throws
  simp only
  split_ifs
  · exact cleared.rest own.pass own.path (own.epoch ▸ own.recent) rfl
  · exact failed.cancelGenerated
  · exact failed

theorem Apart.load {fields fieldsRef savedFields : PageFields} {revision : String}
    (known : FieldsKnown log hook.lifecycle fields)
    (refsKnown : FieldsOr True log hook.lifecycle fieldsRef) (nonempty : revision ≠ "")
    (returned : Returned log hook.lifecycle revision) :
    Apart conversion log { hook with fields, fieldsRef, savedFields, revision } := by
  refine { apart with
    fields := known.or
    fieldsRef := refsKnown
    synced := .inr known
    unsaved := fun unloaded => absurd unloaded nonempty
    revision := .inr returned
    flight := fun flight found => ?_
    generated := fun generated found => ?_ }
  · exact { apart.flight flight found with loaded := fun _ _ => nonempty }
  · exact { apart.generated generated found with loaded := fun _ _ => nonempty }

theorem Apart.fieldsKnown (loaded : hook.revision ≠ "") :
    FieldsKnown log hook.lifecycle hook.fields :=
  ⟨apart.fields.title.resolve_right fun blank => loaded blank.2,
    apart.fields.tags.resolve_right fun blank => loaded blank.2,
    apart.fields.aliases.resolve_right fun blank => loaded blank.2⟩

theorem Apart.adoptEnsured {result : EnsureResult}
    (ensuring : (hook.lifecycle, .returned result.path result.page) ∈ log) :
    Apart conversion log (hook.adoptEnsured result) := by
  have server := fieldsKnown_returned ensuring
  have known : FieldsKnown log hook.lifecycle
      (hook.fieldsRef.fill hook.fields result.page.fields) := by
    rcases apart.synced with same | known
    · refine ⟨?_, ?_, ?_⟩
      all_goals simp only [PageFields.fill, same]
      · split_ifs with blank
        · exact server.title
        · exact apart.fields.title.resolve_right fun isBlank => blank isBlank.1
      · split_ifs with blank
        · exact server.tags
        · exact apart.fields.tags.resolve_right fun isBlank => blank isBlank.1
      · split_ifs with blank
        · exact server.aliases
        · exact apart.fields.aliases.resolve_right fun isBlank => blank isBlank.1
    · refine ⟨?_, ?_, ?_⟩
      all_goals simp only [PageFields.fill]
      · split_ifs
        · exact server.title
        · exact known.title
      · split_ifs
        · exact server.tags
        · exact known.tags
      · split_ifs
        · exact server.aliases
        · exact known.aliases
  have refsKnown : FieldsOr True log hook.lifecycle
      (hook.fieldsRef.fill hook.fieldsRef result.page.fields) := by
    refine ⟨?_, ?_, ?_⟩
    all_goals simp only [PageFields.fill]
    · split_ifs
      · exact .inl server.title
      · exact apart.fieldsRef.title
    · split_ifs
      · exact .inl server.tags
      · exact apart.fieldsRef.tags
    · split_ifs
      · exact .inl server.aliases
      · exact apart.fieldsRef.aliases
  have loaded := @Apart.load _ _ _ _ apart _ _ result.page.fields _ known refsKnown
    result.page.hasRevision ⟨result.path, result.page, ensuring, rfl⟩
  exact { loaded with savePath := .inr ⟨result.page, ensuring⟩ }

variable (own : FlightOwn conversion log hook.lifecycle hook.revision hook.requests flight)

include own

theorem Apart.afterEnsure {result : EnsureResult}
    (ensuring : (flight.epoch, .returned result.path result.page) ∈ log) :
    Apart conversion log (hook.afterEnsure flight result) := by
  have isPath : PathOf log flight.pass.epoch result.path := .inr ⟨result.page, own.epoch ▸ ensuring⟩
  have returned : Returned log flight.pass.epoch result.page.revision :=
    ⟨result.path, result.page, own.epoch ▸ ensuring, rfl⟩
  have recent : flight.pass.epoch ≤ hook.lifecycle := own.epoch ▸ own.recent
  unfold Hook.afterEnsure
  simp only
  by_cases conflicts : result.created = false ∧ jsTrim result.page.body ≠ ""
  · rw [if_pos conflicts]
    split_ifs
    · have cleared : Apart conversion log { hook with saveRequested := false } := { apart with }
      exact cleared.rest own.pass own.path recent rfl
    · exact apart.throws own _
  · rw [if_neg conflicts]
    by_cases stale : hook.lifecycle ≠ flight.epoch
    · rw [if_pos stale]
      refine apart.proceed ⟨own.pass, own.path, recent, fun isCurrent => ?_⟩ isPath returned
      exact absurd (isCurrent.symm.trans own.epoch.symm) stale
    · rw [if_neg stale]
      have adopted := apart.adoptEnsured (not_not.1 stale ▸ ensuring)
      exact adopted.proceed ⟨own.pass, own.path, recent, fun _ => result.page.hasRevision⟩ isPath
        returned

theorem Apart.afterSave {response : PageData} (sends : flight.stage.sends = true)
    (answered : (flight.epoch, .returned path response) ∈ log) :
    Apart conversion log (hook.afterSave flight response) := by
  unfold Hook.afterSave
  by_cases stale : hook.lifecycle ≠ flight.epoch
  · rw [if_pos stale]
    exact apart.rest own.pass own.path (own.epoch ▸ own.recent) rfl
  · rw [if_neg stale]
    have isCurrent : hook.lifecycle = flight.epoch := not_not.1 stale
    have known := apart.fieldsKnown (own.loaded isCurrent.symm sends)
    have loaded := @Apart.load _ _ _ _ apart _ _ response.fields _ known apart.fieldsRef
      response.hasRevision ⟨path, response, isCurrent ▸ answered, rfl⟩
    have saved : Apart conversion log { hook with
          revision := response.revision
          savedFields := response.fields
          savedBody :=
            if flight.pass.encrypted then
              (if flight.pass.bodyChanged then flight.pass.body else hook.savedBody)
            else response.body } := { loaded with }
    exact (saved.markSaved flight.pass).rest own.pass own.path (own.epoch ▸ own.recent) rfl

omit own apart

theorem bodyOwn_opened {body : String} {epoch : Nat} (opened : (epoch, .opened body) ∈ log) :
    BodyOwn conversion log epoch (conversion.markdownToSlate body) none :=
  ⟨⟨body, .inr opened, .inr rfl⟩, fun _ isSome => nomatch isSome⟩

theorem Apart.afterGenerated (apart : Apart conversion log hook) {token epoch : Nat}
    {answer : Answer} {path : String}
    (answered : ∀ canonical, answer = .accepted canonical →
      (epoch, .returned path canonical) ∈ log ∧ (epoch, .opened canonical.body) ∈ log)
    (loaded : hook.lifecycle = epoch →
      (hook.generated.any fun generated => generated.token = token) = true → hook.revision ≠ "") :
    Apart conversion log (hook.afterGenerated conversion token epoch answer) := by
  unfold Hook.afterGenerated
  simp only
  by_cases current : hook.lifecycle = epoch
      ∧ (hook.generated.any fun generated => generated.token = token) = true
  · rw [if_neg (not_not.2 current)]
    cases answer with
    | accepted canonical =>
      have ⟨returned, opened⟩ := answered canonical rfl
      rw [← current.1] at returned opened
      have known := apart.fieldsKnown (loaded current.1 current.2)
      have reloaded := @Apart.load _ _ _ _ apart _ _ hook.savedFields _ known apart.fieldsRef
        canonical.hasRevision ⟨path, canonical, returned, rfl⟩
      apply Apart.cancelGenerated
      exact { reloaded with body := fun _ => bodyOwn_opened opened }
    | revisionConflict currentRevision =>
      apply Apart.cancelGenerated
      exact { apart with }
    | failed => exact apart.cancelGenerated
  · rw [if_pos current]
    exact apart

theorem Apart.afterReload (apart : Apart conversion log hook) {epoch : Nat} {latest : PageData}
    {path decrypted : String}
    (fetched : hook.lifecycle = epoch → (epoch, .returned path latest) ∈ log
      ∧ (epoch, .opened (if latest.encrypted then decrypted else latest.body)) ∈ log) :
    Apart conversion log (hook.afterReload conversion epoch latest decrypted) := by
  unfold Hook.afterReload
  simp only
  by_cases stale : hook.lifecycle ≠ epoch
  · rw [if_pos stale]
    exact apart
  · rw [if_neg stale]
    have ⟨returned, opened⟩ := fetched (not_not.1 stale)
    rw [← not_not.1 stale] at returned opened
    have known := fieldsKnown_returned returned
    have reloaded := @Apart.load _ _ _ _ apart _ _ latest.fields _ known known.or latest.hasRevision
      ⟨path, latest, returned, rfl⟩
    exact { reloaded with body := fun _ => bodyOwn_opened opened }

end Saves

/-! ### Effects -/

section Effects

variable {Doc : Type} {conversion : Conversion Doc} {log : Log} {hook : Hook Doc}

theorem Apart.commit (apart : Apart conversion log hook) : Apart conversion log hook.commit :=
  { apart with fieldsRef := apart.fields.weaken fun _ => trivial, synced := .inl rfl }

theorem Apart.sync (apart : Apart conversion log hook) :
    Apart conversion log (hook.sync conversion) := by
  unfold Hook.sync
  split
  · exact apart
  · rename_i number page isPage
    have ⟨path, returned⟩ := apart.page (number, page) isPage
    have known := fieldsKnown_returned returned
    split_ifs
    · exact apart
    · simp only
      split
      · exact { apart with fields := known.or, synced := .inr known }
      · rename_i body isBody
        have loaded := @Apart.load _ _ _ _ apart _ _ page.fields _ known apart.fieldsRef
          page.hasRevision ⟨path, page, returned, rfl⟩
        exact { loaded with body := fun _ => bodyOwn_opened (apart.plain body isBody) }

def Query.Logged (query : Query) (log : Log) (epoch : Nat) (path : String) : Prop :=
  (∀ page, query.page = some page → (epoch, .returned path page) ∈ log)
    ∧ ∀ body, query.plain = some body → (epoch, .opened body) ∈ log

theorem page_take {query : Query} {epoch : Nat} {path : String}
    (logged : query.Logged log epoch path) :
    ∀ page, (hook.take query).page = some page → hook.page = some page
      ∨ (epoch, .returned path page.2) ∈ log := by
  intro page found
  simp only [Hook.take] at found
  split_ifs at found
  · exact .inl found
  · have ⟨data, isData, isPage⟩ := map_eq_some_iff.1 found
    rw [← isPage]
    exact .inr (logged.1 data isData)

variable {query : Query} {path : String}

theorem Apart.take (apart : Apart conversion log hook)
    (logged : query.Logged log hook.lifecycle path) : Apart conversion log (hook.take query) := by
  refine { apart with page := fun page found => ?_, plain := logged.2 }
  rcases page_take logged page found with old | new
  · exact apart.page page old
  · exact ⟨path, new⟩

theorem apart_reset (requests : ∀ request ∈ hook.requests, RequestOwn conversion log request)
    (tokens : ∀ request ∈ hook.requests, TokenOwn hook.tokens hook.generated request)
    (flight : ∀ flight, hook.flight = some flight →
      FlightOwn conversion log hook.lifecycle hook.revision hook.requests flight)
    (isPath : hook.path = path) (visited : (hook.lifecycle + 1, .visited path) ∈ log)
    (page : ∀ page, hook.page = some page → (hook.lifecycle + 1, .returned path page.2) ∈ log)
    (plain : ∀ body, hook.plainBody = some body → (hook.lifecycle + 1, .opened body) ∈ log) :
    Apart conversion log (hook.reset conversion path) := by
  have blank : ∀ condition : Prop, condition → FieldsOr condition log (hook.lifecycle + 1) .blank :=
    fun _ holds => ⟨.inr ⟨rfl, holds⟩, .inr ⟨rfl, holds⟩, .inr ⟨rfl, holds⟩⟩
  refine ⟨isPath ▸ visited, fun found isFound => ⟨path, page found isFound⟩, plain, .inl visited,
    blank _ rfl, blank _ trivial, .inl rfl, fun _ => rfl, fun edited => absurd rfl edited, .inl rfl,
    fun found isFound => ?_, requests, fun _ isGenerated => (nomatch isGenerated),
    fun request member token epoch isSender => ?_, fun _ isGenerated => (nomatch isGenerated)⟩
  rotate_left
  · exact ⟨(tokens request member token epoch isSender).1, fun _ isSome => nomatch isSome⟩
  have own := flight found isFound
  refine { own with recent := Nat.le_succ_of_le own.recent, loaded := fun isCurrent => ?_ }
  have older := own.recent
  have newer : found.epoch = hook.lifecycle + 1 := isCurrent
  omega

theorem Apart.flush (apart : Apart conversion log hook)
    (settled : hook.timer = true → hook.begins = true → Settled conversion hook) :
    Apart conversion log (hook.flush conversion) := by
  unfold Hook.flush
  split_ifs with pending
  · exact apart.doSave (settled pending)
  · exact apart

theorem Apart.saveOffline (apart : Apart conversion log hook)
    (settled : hook.online = false → hook.begins = true → Settled conversion hook) :
    Apart conversion log (hook.saveOffline conversion) := by
  unfold Hook.saveOffline
  split_ifs with isOnline
  · exact apart
  · exact apart.doSave (settled (by simpa using isOnline))

def Begins (conversion : Conversion Doc) (hook : Hook Doc) : Prop :=
  hook.begins = true → Settled conversion hook

def BeginsOffline (conversion : Conversion Doc) (hook : Hook Doc) : Prop :=
  hook.online = false → Begins conversion hook

variable (apart : Apart conversion log hook)

include apart

theorem Apart.revisit {canDraft : Bool} (visited : (hook.lifecycle + 1, .visited path) ∈ log)
    (logged : query.Logged log (hook.lifecycle + 1) path) :
    Apart conversion log (hook.revisit conversion path canDraft query) := by
  apply Apart.sync
  refine apart_reset apart.requests apart.tokens apart.flight rfl visited ?_ logged.2
  intro page found
  have either := @page_take _ log { hook with path, canDraft, page := none } query _ path logged page
    found
  rcases either with old | new
  · cases old
  · exact new

theorem Apart.navigate {canDraft : Bool} (visited : (hook.lifecycle + 1, .visited path) ∈ log)
    (logged : query.Logged log (hook.lifecycle + 1) path)
    (flushes : hook.timer = true → Begins conversion hook) (offline : BeginsOffline conversion
      ((hook.flush conversion).revisit conversion path canDraft query)) :
    Apart conversion log (hook.navigate conversion path canDraft query) := by
  have same := lifecycle_flush conversion hook
  exact ((apart.flush flushes).revisit (same ▸ visited) (same ▸ logged)).saveOffline offline

theorem Apart.rerender (logged : query.Logged log hook.lifecycle path) :
    Apart conversion log (hook.rerender conversion query) := by
  have shown := (apart.take logged).commit
  unfold Hook.rerender
  simp only
  split_ifs
  · exact shown
  · exact shown.sync

theorem Apart.deliver (logged : query.Logged log hook.lifecycle path)
    (flushes : hook.renews query = true → hook.timer = true → Begins conversion hook)
    (offline : hook.renews query = true →
      BeginsOffline conversion ((hook.flush conversion).rerender conversion query)) :
    Apart conversion log (hook.deliver conversion query) := by
  have same := lifecycle_flush conversion hook
  unfold Hook.deliver
  split_ifs with renews
  · exact ((apart.flush (flushes renews)).rerender (same ▸ logged)).saveOffline (offline renews)
  · exact apart.rerender logged

end Effects

/-! ### Edits and generated changes -/

section Edits

variable {Doc : Type} {conversion : Conversion Doc} {log : Log} {hook : Hook Doc}
  (apart : Apart conversion log hook)

include apart

theorem Apart.scheduleSave :
    Apart conversion log hook.scheduleSave := by
  unfold Hook.scheduleSave
  split_ifs
  · exact apart
  · exact { apart with }

theorem Apart.setFields {fields fieldsRef : PageFields}
    (known : FieldsOr (hook.revision = "") log hook.lifecycle fields)
    (refsKnown : FieldsOr True log hook.lifecycle fieldsRef)
    (synced : fieldsRef = fields ∨ FieldsKnown log hook.lifecycle fields) (metaEditGen : Nat) :
    Apart conversion log { hook with fields, fieldsRef, metaEditGen } :=
  { apart with fields := known, fieldsRef := refsKnown, synced }

theorem Apart.edit {edit : Edit Doc}
    (typed : (hook.lifecycle, .typed (edit.value conversion)) ∈ log) :
    Apart conversion log (hook.edit conversion edit) := by
  unfold Hook.edit
  by_cases open' : hook.generated.isSome = true
  · rw [if_pos open']
    exact apart
  · rw [if_neg open']
    have known := apart.fields
    have refsKnown := apart.fieldsRef
    cases edit with
    | title title =>
      have isTyped : (hook.lifecycle, .typed (.title title)) ∈ log := typed
      apply Apart.scheduleSave
      refine @Apart.setFields _ _ _ _ apart { hook.fields with title } { hook.fieldsRef with title }
        ⟨.inl (.inl isTyped), known.tags, known.aliases⟩
        ⟨.inl (.inl isTyped), refsKnown.tags, refsKnown.aliases⟩ ?_ _
      rcases apart.synced with same | all
      · exact .inl (by rw [same])
      · exact .inr ⟨.inl isTyped, all.tags, all.aliases⟩
    | tags tags =>
      have isTyped : (hook.lifecycle, .typed (.tags tags)) ∈ log := typed
      apply Apart.scheduleSave
      refine @Apart.setFields _ _ _ _ apart { hook.fields with tags } { hook.fieldsRef with tags }
        ⟨known.title, .inl (.inl isTyped), known.aliases⟩
        ⟨refsKnown.title, .inl (.inl isTyped), refsKnown.aliases⟩ ?_ _
      rcases apart.synced with same | all
      · exact .inl (by rw [same])
      · exact .inr ⟨all.title, .inl isTyped, all.aliases⟩
    | aliases aliases =>
      have isTyped : (hook.lifecycle, .typed (.aliases aliases)) ∈ log := typed
      apply Apart.scheduleSave
      refine @Apart.setFields _ _ _ _ apart { hook.fields with aliases } { hook.fieldsRef with aliases }
        ⟨known.title, known.tags, .inl (.inl isTyped)⟩
        ⟨refsKnown.title, refsKnown.tags, .inl (.inl isTyped)⟩ ?_ _
      rcases apart.synced with same | all
      · exact .inl (by rw [same])
      · exact .inr ⟨all.title, all.tags, .inl isTyped⟩
    | slate value =>
      have isTyped : (hook.lifecycle, .typed (.body (conversion.slateToMarkdown value))) ∈ log :=
        typed
      apply Apart.scheduleSave
      refine { apart with body := fun _ => ⟨⟨_, .inl isTyped, .inl rfl⟩, fun _ isSome => ?_⟩ }
      cases isSome
    | markdown markdown =>
      have isTyped : (hook.lifecycle, .typed (.body markdown)) ∈ log := typed
      apply Apart.scheduleSave
      refine { apart with
        body := fun _ => ⟨⟨_, .inl isTyped, .inr rfl⟩, fun body isSome => ?_⟩ }
      exact ⟨markdown, .inl isTyped, .inl (some.inj isSome).symm⟩

theorem Apart.opening {preparedBody : Option String}
    (typed : ∀ body, preparedBody = some body → (hook.lifecycle, .typed (.body body)) ∈ log) :
    Apart conversion log (hook.opening conversion preparedBody) := by
  have draining : ∀ generated, some (⟨hook.tokens, hook.lifecycle, .draining⟩ : Generated)
      = some generated → GeneratedOwn log hook.lifecycle hook.revision generated := by
    intro generated isGenerated
    rw [← some.inj isGenerated]
    exact ⟨Nat.le_refl _, fun _ isDraining => absurd rfl isDraining, fun _ _ isStage => nomatch isStage⟩
  have fresh : ∀ request ∈ hook.requests, TokenOwn (hook.tokens + 1)
      (some ⟨hook.tokens, hook.lifecycle, .draining⟩) request := by
    intro request member token epoch isSender
    have older := (apart.tokens request member token epoch isSender).1
    refine ⟨Nat.lt_succ_of_lt older, fun current isCurrent same => ?_⟩
    rw [← some.inj isCurrent] at same
    exact absurd same (Nat.ne_of_gt older)
  have newest : ∀ generated, some (⟨hook.tokens, hook.lifecycle, .draining⟩ : Generated)
      = some generated → generated.token < hook.tokens + 1 := by
    intro generated isGenerated
    rw [← some.inj isGenerated]
    exact Nat.lt_succ_self _
  cases preparedBody with
  | none => exact { apart with generated := draining, tokens := fresh, numbered := newest }
  | some body =>
    refine { apart with
      body := fun _ => ⟨⟨body, .inl (typed body rfl), .inr rfl⟩, fun other isSome => ?_⟩
      generated := draining
      tokens := fresh
      numbered := newest }
    exact ⟨body, .inl (typed body rfl), .inl (some.inj isSome).symm⟩

theorem Apart.beginGenerated {preparedBody : Option String}
    (typed : ∀ body, preparedBody = some body → (hook.lifecycle, .typed (.body body)) ∈ log)
    (begins : Begins conversion (hook.opening conversion preparedBody)) :
    Apart conversion log (hook.beginGenerated conversion preparedBody) := by
  have opened := (apart.opening typed).doSave begins
  unfold Hook.beginGenerated
  simp only
  split_ifs
  · exact opened.cancelGenerated
  · exact opened

theorem Apart.drained {generated : Generated} (isGenerated : hook.generated = some generated) :
    Apart conversion log (hook.drained generated) := by
  have ignoring : Apart conversion log
      { hook with ignoredServerPage := hook.page.map Prod.fst } := { apart with }
  unfold Hook.drained
  simp only
  by_cases stale : hook.lifecycle ≠ generated.epoch
  · rw [if_pos stale]
    exact apart
  · rw [if_neg stale]
    have isCurrent : hook.lifecycle = generated.epoch := not_not.1 stale
    by_cases unloaded : hook.revision = ""
    · rw [if_pos unloaded]
      exact ignoring.cancelGenerated
    · rw [if_neg unloaded]
      refine { ignoring with
        generated := fun other isOther => ?_
        tokens := fun request member token epoch isSender => ?_
        numbered := fun other isOther => ?_ }
      rotate_left
      · have before := apart.tokens request member token epoch isSender
        refine ⟨before.1, fun current isCurrent same => ?_⟩
        rw [← some.inj isCurrent] at same ⊢
        exact ⟨(before.2 generated isGenerated same).1, fun isDraining => nomatch isDraining⟩
      · rw [← some.inj isOther]
        exact apart.numbered generated isGenerated
      rw [← some.inj isOther]
      refine ⟨(apart.generated generated isGenerated).recent, fun _ _ => unloaded,
        fun path revision isStage => ?_⟩
      obtain ⟨rfl, rfl⟩ := GeneratedStage.ready.inj isStage
      rw [← isCurrent]
      exact ⟨apart.savePath, apart.revision.resolve_left unloaded⟩

end Edits

/-! ### The lock of a page -/

def renewed (log : Log) (epoch : Nat) : Log :=
  (log.filter fun entry => entry.1 = epoch).map fun entry => (epoch + 1, entry.2)

section Lock

variable {Doc : Type} {conversion : Conversion Doc} {log : Log} {epoch : Nat}

theorem mem_renewed {source : Source} (member : (epoch, source) ∈ log) :
    (epoch + 1, source) ∈ log ++ renewed log epoch := by
  apply mem_append_right
  exact List.mem_map.2 ⟨(epoch, source), mem_filter.2 ⟨member, by simp⟩, rfl⟩

theorem Known.renew {value : Value} (known : Known log epoch value) :
    Known (log ++ renewed log epoch) (epoch + 1) value := by
  rcases known with typed | ⟨path, page, returned, has⟩
  · exact .inl (mem_renewed typed)
  · exact .inr ⟨path, page, mem_renewed returned, has⟩

theorem FieldsOr.renew {blank : Prop} {fields : PageFields}
    (known : FieldsOr blank log epoch fields) :
    FieldsOr blank (log ++ renewed log epoch) (epoch + 1) fields :=
  ⟨known.title.imp_left Known.renew, known.tags.imp_left Known.renew,
    known.aliases.imp_left Known.renew⟩

theorem FieldsKnown.renew {fields : PageFields} (known : FieldsKnown log epoch fields) :
    FieldsKnown (log ++ renewed log epoch) (epoch + 1) fields :=
  ⟨known.title.renew, known.tags.renew, known.aliases.renew⟩

theorem Apart.lock {hook : Hook Doc} (apart : Apart conversion log hook) :
    Apart conversion (log ++ renewed log hook.lifecycle) (hook.lock conversion) := by
  apply Apart.sync
  have later := @Apart.append _ _ _ (renewed log hook.lifecycle) _ apart
  refine { later with
    path := mem_renewed apart.path
    page := fun page found => (apart.page page found).imp fun _ returned => mem_renewed returned
    plain := fun _ isSome => nomatch isSome
    savePath := ?_
    fields := apart.fields.renew
    fieldsRef := apart.fieldsRef.renew
    synced := apart.synced.imp_right FieldsKnown.renew
    body := fun edited => absurd rfl edited
    revision := apart.revision.imp_right fun returned => ?_
    flight := fun flight found => ?_
    generated := fun generated found => ?_ }
  · rcases apart.savePath with visited | ⟨page, returned⟩
    · exact .inl (mem_renewed visited)
    · exact .inr ⟨page, mem_renewed returned⟩
  · have ⟨path, page, member, same⟩ := returned
    exact ⟨path, page, mem_renewed member, same⟩
  · have own := later.flight flight found
    have older := own.recent
    refine { own with recent := Nat.le_succ_of_le older, loaded := fun isCurrent => ?_ }
    have newer : flight.epoch = hook.lifecycle + 1 := isCurrent
    omega
  · have own := later.generated generated found
    have older := own.recent
    refine { own with recent := Nat.le_succ_of_le older, loaded := fun isCurrent => ?_ }
    have newer : generated.epoch = hook.lifecycle + 1 := isCurrent
    omega

end Lock

/-! ### Requests and their answers -/

section Requests

variable {Doc : Type} {conversion : Conversion Doc} {log : Log} {hook : Hook Doc}
  {request : Request}

theorem RequestOwn.answered (own : RequestOwn conversion log request) (answer : Option Answer)
    (handled : Bool) :
    RequestOwn conversion log { request with answer, handled } := { own with }

theorem Apart.setRequest (apart : Apart conversion log hook) {index : Nat}
    (found : hook.requests[index]? = some request) (answer : Option Answer) (handled : Bool) :
    Apart conversion log
      { hook with requests := hook.requests.set index { request with answer, handled } } := by
  refine { apart with
    flight := fun flight isFlight => ?_
    requests := fun other member => ?_
    tokens := fun other member => ?_ }
  · refine { apart.flight flight isFlight with sent := fun place isStage => ?_ }
    have before := (apart.flight flight isFlight).sent place isStage
    by_cases same : index = place
    · rw [← same, found] at before
      rw [← same]
      have below : index < hook.requests.length := (List.getElem?_eq_some_iff.1 found).1
      simp only [getElem?_set_self below, map_some]
      exact before
    · rw [getElem?_set_ne same]
      exact before
  · rcases mem_or_eq_of_mem_set member with old | new
    · exact apart.requests other old
    · rw [new]
      exact (apart.requests request (mem_of_getElem? found)).answered answer handled
  · rcases mem_or_eq_of_mem_set member with old | new
    · exact apart.tokens other old
    · rw [new]
      exact apart.tokens request (mem_of_getElem? found)

theorem requestOwn_bare {sender : Sender} {path revision : String}
    (isPath : PathOf log sender.epoch path) (returned : Returned log sender.epoch revision) :
    RequestOwn conversion log ⟨sender, path, revision, none, none, none, none, none, false⟩ :=
  ⟨fun _ isSent => (nomatch isSent), fun _ isSent => (nomatch isSent),
    fun _ isSent => (nomatch isSent), fun _ isSent => (nomatch isSent), isPath, returned⟩

variable (apart : Apart conversion log hook)

include apart

theorem Apart.writeGenerated {token epoch : Nat} {path revision : String}
    (isGenerated : hook.generated = some ⟨token, epoch, .ready path revision⟩) :
    Apart conversion log { hook with
        generated := some ⟨token, epoch, .writing⟩
        requests := hook.requests ++
          [⟨.generated token epoch, path, revision, none, none, none, none, none, false⟩] } := by
  have own := apart.generated _ isGenerated
  have writing : Apart conversion log { hook with generated := some ⟨token, epoch, .writing⟩ } := by
    refine { apart with
      generated := fun other isOther => ?_
      tokens := fun request member otherToken otherEpoch isSender => ?_
      numbered := fun other isOther => ?_ }
    · rw [← some.inj isOther]
      exact ⟨own.recent, fun isCurrent _ => own.loaded isCurrent (fun isDraining => nomatch isDraining),
        fun _ _ isStage => nomatch isStage⟩
    · have ⟨older, same⟩ := apart.tokens request member otherToken otherEpoch isSender
      refine ⟨older, fun current isCurrent isToken => ?_⟩
      rw [← some.inj isCurrent] at isToken ⊢
      exact ⟨(same _ isGenerated isToken).1, fun isDraining => nomatch isDraining⟩
    · have older : token < hook.tokens := apart.numbered _ isGenerated
      rw [← some.inj isOther]
      exact older
  have ⟨isPath, returned⟩ := own.ready path revision rfl
  refine writing.addRequest (requestOwn_bare isPath returned) ?_
  intro otherToken otherEpoch isSender
  obtain ⟨rfl, rfl⟩ := Sender.generated.inj isSender
  refine ⟨apart.numbered _ isGenerated, fun current isCurrent _ => ?_⟩
  rw [← some.inj isCurrent]
  exact ⟨rfl, fun isDraining => nomatch isDraining⟩

theorem Apart.reach {index : Nat} (found : hook.requests[index]? = some request) (page : PageData) :
    Apart conversion log (hook.reach index request page) := by
  unfold Hook.reach
  simp only
  split_ifs
  · exact { apart.setRequest found (some (.accepted page)) request.handled with }
  · exact apart.setRequest found _ _

theorem Apart.handle {index : Nat} {answer : Answer} (found : hook.requests[index]? = some request)
    (answered : ∀ page, answer = .accepted page →
      (request.sender.epoch, .returned request.path page) ∈ log
        ∧ (request.sender.epoch, .opened page.body) ∈ log) :
    Apart conversion log (hook.handle conversion index request answer) := by
  have handled := apart.setRequest found request.answer true
  unfold Hook.handle
  simp only
  split
  · rename_i pass isSender
    split
    · exact handled
    · rename_i flight isFlight
      have own := handled.flight flight isFlight
      by_cases other : flight.stage ≠ .requesting index
      · rw [if_pos other]
        exact handled
      · rw [if_neg other]
        have isStage := not_not.1 other
        cases answer with
        | accepted response =>
          have isPass := (apart.flight flight isFlight).sent index isStage
          rw [found, map_some, isSender] at isPass
          have returned := (answered response rfl).1
          rw [isSender, some.inj isPass] at returned
          have isEpoch : (flight.epoch, .returned request.path response) ∈ log := by
            rw [own.epoch]
            exact returned
          exact handled.afterSave own (by rw [isStage]; rfl) isEpoch
        | revisionConflict | failed => exact handled.throws own _
  · exact handled
  · rename_i token epoch isSender
    refine @Apart.afterGenerated _ _ _ _ handled _ _ _ request.path (fun page isPage => ?_) ?_
    · have returned := answered page isPage
      rw [isSender] at returned
      exact returned
    · intro isCurrent isOpen
      obtain ⟨generated, isGenerated, same⟩ :
          ∃ generated, hook.generated = some generated ∧ generated.token = token := by
        simpa [Option.any_eq_true] using isOpen
      have own := apart.tokens request (mem_of_getElem? found) token epoch isSender
      obtain ⟨sameEpoch, open'⟩ := own.2 generated isGenerated same
      exact (apart.generated generated isGenerated).loaded (sameEpoch.trans isCurrent.symm) open'

end Requests

/-! ### Runs -/

section Runs

variable {Doc : Type} (conversion : Conversion Doc)

def Ready (hook : Hook Doc) : Step Doc → Prop
  | .timer | .saveNow => Begins conversion hook
  | .hide | .unmount => hook.timer = true → Begins conversion hook
  | .setOnline online => BeginsOffline conversion ({ hook with online }.commit)
  | .deliver query => hook.renews query = true →
      (hook.timer = true → Begins conversion hook)
        ∧ BeginsOffline conversion ((hook.flush conversion).rerender conversion query)
  | .navigate path canDraft query =>
    (hook.timer = true → Begins conversion hook)
      ∧ BeginsOffline conversion ((hook.flush conversion).revisit conversion path canDraft query)
  | .beginGenerated preparedBody => Begins conversion (hook.opening conversion preparedBody)
  | .settle =>
    (hook.saveRequested ∧ hook.flight.map Flight.epoch = some hook.lifecycle)
      ∨ hook.lifecycle ∈ hook.waiting → Settled conversion hook
  | _ => True

instance decidableSettled (hook : Hook Doc) : Decidable (Settled conversion hook) :=
  decidable_of_iff
    (hook.fieldsRef = hook.fields ∧ (hook.revision ≠ "" ∨ (hook.isDraftRef && hook.ensureRef) = true
      ∨ ∀ encrypted, (hook.snapshot conversion encrypted).changed = false))
    ⟨fun holds => ⟨holds.1, holds.2⟩, fun settled => ⟨settled.refs, settled.loaded⟩⟩

instance decidableBegins (hook : Hook Doc) : Decidable (Begins conversion hook) :=
  inferInstanceAs (Decidable (hook.begins = true → Settled conversion hook))

instance decidableBeginsOffline (hook : Hook Doc) : Decidable (BeginsOffline conversion hook) :=
  inferInstanceAs (Decidable (hook.online = false → Begins conversion hook))

instance decidableReady (hook : Hook Doc) (action : Step Doc) :
    Decidable (Ready conversion hook action) :=
  match action with
  | .timer | .saveNow => inferInstanceAs (Decidable (Begins conversion hook))
  | .hide | .unmount => inferInstanceAs (Decidable (hook.timer = true → Begins conversion hook))
  | .setOnline online =>
    inferInstanceAs (Decidable (BeginsOffline conversion ({ hook with online }.commit)))
  | .deliver query => inferInstanceAs (Decidable (hook.renews query = true →
      (hook.timer = true → Begins conversion hook)
        ∧ BeginsOffline conversion ((hook.flush conversion).rerender conversion query)))
  | .navigate path canDraft query => inferInstanceAs (Decidable
      ((hook.timer = true → Begins conversion hook)
        ∧ BeginsOffline conversion ((hook.flush conversion).revisit conversion path canDraft query)))
  | .beginGenerated preparedBody =>
    inferInstanceAs (Decidable (Begins conversion (hook.opening conversion preparedBody)))
  | .settle => inferInstanceAs (Decidable
      ((hook.saveRequested ∧ hook.flight.map Flight.epoch = some hook.lifecycle)
        ∨ hook.lifecycle ∈ hook.waiting → Settled conversion hook))
  | .edit _ | .commit | .decrypted _ | .lock | .setReadonly | .drained | .writeGenerated
  | .cancelGenerated | .ensured _ | .ensureFails | .encrypted _ | .encryptFails | .reach _ _
  | .lose _ | .answer _ | .reload | .reloaded _ _ _ | .reloadFails _ | .foreignWrite _ _ =>
    isTrue trivial

def Query.sources (query : Query) (epoch : Nat) (path : String) : Log :=
  (query.page.toList.map fun page => (epoch, .returned path page))
    ++ query.plain.toList.map fun body => (epoch, .opened body)

def sources (log : Log) (hook : Hook Doc) : Step Doc → Log
  | .edit edit => [(hook.lifecycle, .typed (edit.value conversion))]
  | .deliver query => query.sources hook.lifecycle hook.path
  | .decrypted body => [(hook.lifecycle, .opened body)]
  | .navigate path _ query =>
    (hook.lifecycle + 1, .visited path) :: query.sources (hook.lifecycle + 1) path
  | .lock => renewed log hook.lifecycle
  | .beginGenerated preparedBody =>
    preparedBody.toList.map fun body => (hook.lifecycle, .typed (.body body))
  | .ensured result =>
    hook.flight.toList.map fun flight => (flight.epoch, .returned result.path result.page)
  | .answer index =>
    match hook.requests[index]? with
    | some request =>
      match request.answer with
      | some (.accepted page) =>
        [(request.sender.epoch, .returned request.path page),
          (request.sender.epoch, .opened page.body)]
      | _ => []
    | none => []
  | .reloaded index latest body =>
    if hook.reloads[index]? = some hook.lifecycle then
      [(hook.lifecycle, .returned hook.path latest),
        (hook.lifecycle, .opened (if latest.encrypted then body else latest.body))]
    else []
  | _ => []

structure Traced (Doc : Type) where
  hook : Hook Doc
  log : Log

def Traced.mount (path : String) (canDraft online : Bool) (query : Query)
    (server : String → String) : Traced Doc :=
  ⟨Hook.mount conversion path canDraft online query server,
    (0, .visited path) :: query.sources 0 path⟩

end Runs

section RunLemmas

variable {Doc : Type} {conversion : Conversion Doc} {log : Log} {hook : Hook Doc}

end RunLemmas

/-! ### Responses for another page -/

structure Baseline where
  revision : String
  fields : PageFields
  body : String
  bodyGen : Nat
  metaGen : Nat

section Responses

variable {Doc : Type} {conversion : Conversion Doc} {log : Log} {hook : Hook Doc}

def Hook.baseline (hook : Hook Doc) : Baseline :=
  ⟨hook.revision, hook.savedFields, hook.savedBody, hook.savedBodyGen, hook.savedMetaGen⟩

end Responses

/-! ### Saves of different pages -/

section Main

variable {Doc : Type} {conversion : Conversion Doc} {path : String} {canDraft online : Bool}
  {query : Query} {server : String → String}

end Main

/-! ### A page opened while offline -/

end Clepsydra.Editor
