import Clepsydra.Library.JsText
import Clepsydra.Library.Transitions

/-!
Owns: the page editor's hook; and a server that takes a write for the current revision only.

A function of the hook runs up to its next `await` in one step. Requests log the save that sent
them.
-/

namespace Clepsydra.Editor

open Library Library.Transitions Option

/-! ### Pages -/

structure PageFields where
  title : String
  tags : List String
  aliases : List String
deriving DecidableEq

def PageFields.blank : PageFields := ⟨"", [], []⟩

structure PageData where
  revision : String
  hasRevision : revision ≠ ""
  title : Option String
  tags : Option (List String)
  aliases : Option (List String)
  body : String
  encrypted : Bool
  readonly : Bool
deriving DecidableEq

def PageData.fields (page : PageData) : PageFields :=
  ⟨page.title.getD "", page.tags.getD [], page.aliases.getD []⟩

structure EnsureResult where
  path : String
  page : PageData
  created : Bool

structure Conversion (Doc : Type) where
  markdownToSlate : String → Doc
  slateToMarkdown : Doc → String
  empty : Doc

/-! ### Saves and requests -/

/-- What one pass of a save reads before its first `await`. -/
structure Pass where
  epoch : Nat
  bodyGen : Nat
  metaGen : Nat
  fields : PageFields
  body : String
  bodyDirty : Bool
  bodyOverride : Option String
  savedFields : PageFields
  savedBody : String
  revision : String
  path : String
  encrypted : Bool
deriving DecidableEq

def Pass.bodyChanged (pass : Pass) : Bool := pass.bodyDirty && pass.body ≠ pass.savedBody

def Pass.titleChanged (pass : Pass) : Bool := pass.fields.title ≠ pass.savedFields.title

def Pass.tagsChanged (pass : Pass) : Bool := pass.fields.tags ≠ pass.savedFields.tags

def Pass.aliasesChanged (pass : Pass) : Bool := pass.fields.aliases ≠ pass.savedFields.aliases

def Pass.changed (pass : Pass) : Bool :=
  pass.bodyChanged || pass.titleChanged || pass.tagsChanged || pass.aliasesChanged

inductive Stage where
  | ensuring
  | encrypting (path revision : String)
  | requesting (request : Nat)
  | passed
deriving DecidableEq

/-- `saveFlightRef`. -/
structure Flight where
  epoch : Nat
  pass : Pass
  stage : Stage
deriving DecidableEq

inductive Sender where
  | save (pass : Pass)
  | readonly (epoch : Nat)
  | generated (token epoch : Nat)

inductive Answer where
  | accepted (page : PageData)
  | revisionConflict (currentRevision : String)
  | failed

/-- An update request; a field that is `none` is not sent. -/
structure Request where
  sender : Sender
  path : String
  expectedRevision : String
  title : Option (Option String)
  tags : Option (List String)
  aliases : Option (List String)
  body : Option String
  answer : Option Answer
  handled : Bool

inductive GeneratedStage where
  | draining
  | ready (path revision : String)
  | writing
deriving DecidableEq

/-- `generatedChangeRef` with its session. -/
structure Generated where
  token : Nat
  epoch : Nat
  stage : GeneratedStage

/-! ### The hook -/

structure Hook (Doc : Type) where
  path : String
  online : Bool
  mounted : Bool
  /-- The query's data; each new value has a number of its own. -/
  page : Option (Nat × PageData)
  plainBody : Option String
  pageNotFound : Bool
  canDraft : Bool
  ensured : Bool
  isDraftRef : Bool
  ensureRef : Bool
  fields : PageFields
  fieldsRef : PageFields
  savedFields : PageFields
  savedBody : String
  editorValue : Doc
  bodyOverride : Option String
  bodyEditGen : Nat
  metaEditGen : Nat
  savedBodyGen : Nat
  savedMetaGen : Nat
  revision : String
  savePath : String
  saveRequested : Bool
  flight : Option Flight
  /-- The epochs of the saves that wait for the flight of another page. -/
  waiting : List Nat
  timer : Bool
  conflict : Option String
  generated : Option Generated
  ignoredServerPage : Option Nat
  lifecycle : Nat
  reloads : List Nat
  deliveries : Nat
  tokens : Nat
  requests : List Request
  /-- The passes that found nothing to send. -/
  idle : List Pass
  server : String → String

section Hook

variable {Doc : Type} (conversion : Conversion Doc)

def Hook.bodyDirty (hook : Hook Doc) : Bool := hook.savedBodyGen < hook.bodyEditGen

def Hook.metaDirty (hook : Hook Doc) : Bool := hook.savedMetaGen < hook.metaEditGen

def Hook.isDraft (hook : Hook Doc) : Bool :=
  hook.pageNotFound && hook.canDraft && !hook.ensured && hook.page.isNone

def Hook.encrypted (hook : Hook Doc) : Bool := hook.page.any fun page => page.2.encrypted

def Hook.holdsSaves (hook : Hook Doc) : Bool :=
  hook.generated.any fun generated => generated.stage ≠ .draining

/-! ### Saving -/

/-- The snapshot at the start of `savePass`. -/
def Hook.snapshot (hook : Hook Doc) (encrypted : Bool) : Pass :=
  { epoch := hook.lifecycle
    bodyGen := hook.bodyEditGen
    metaGen := hook.metaEditGen
    fields := hook.fieldsRef
    body :=
      if hook.bodyDirty then
        hook.bodyOverride.getD (conversion.slateToMarkdown hook.editorValue)
      else hook.savedBody
    bodyDirty := hook.bodyDirty
    bodyOverride := hook.bodyOverride
    savedFields := hook.savedFields
    savedBody := hook.savedBody
    revision := hook.revision
    path := hook.savePath
    encrypted }

def Hook.markSaved (hook : Hook Doc) (pass : Pass) : Hook Doc := { hook with
    savedBodyGen := pass.bodyGen
    savedMetaGen := pass.metaGen
    bodyOverride :=
      if hook.bodyEditGen = pass.bodyGen ∧ hook.bodyOverride = pass.bodyOverride then none
      else hook.bodyOverride }

def Hook.inFlight (hook : Hook Doc) (pass : Pass) (stage : Stage) : Hook Doc :=
  { hook with flight := some ⟨pass.epoch, pass, stage⟩ }

def Pass.request (pass : Pass) (path revision : String) (body : Option String) : Request :=
  { sender := .save pass
    path
    expectedRevision := revision
    title :=
      if pass.titleChanged then
        some (if pass.fields.title = "" then none else some pass.fields.title)
      else none
    tags := if pass.tagsChanged then some pass.fields.tags else none
    aliases := if pass.aliasesChanged then some pass.fields.aliases else none
    body
    answer := none
    handled := false }

def Hook.send (hook : Hook Doc) (pass : Pass) (path revision : String)
    (body : Option String) : Hook Doc :=
  { hook with requests := hook.requests ++ [pass.request path revision body] }.inFlight pass
    (.requesting hook.requests.length)

def Hook.proceed (hook : Hook Doc) (pass : Pass) (path revision : String) : Hook Doc :=
  if pass.bodyChanged && pass.encrypted then hook.inFlight pass (.encrypting path revision)
  else hook.send pass path revision (if pass.bodyChanged then some pass.body else none)

/-- One turn of the loop of a flight, up to its first `await`. -/
def Hook.savePass (hook : Hook Doc) (encrypted : Bool) : Hook Doc :=
  let pass := hook.snapshot conversion encrypted
  let hook := { hook with saveRequested := false }
  if pass.changed = false then
    { hook.markSaved pass with idle := hook.idle ++ [pass] }.inFlight pass .passed
  else if hook.isDraftRef && hook.ensureRef then hook.inFlight pass .ensuring
  else hook.proceed pass pass.path pass.revision

def Hook.doSave (hook : Hook Doc) : Hook Doc :=
  if hook.holdsSaves then hook
  else
    let hook := { hook with timer := false }
    if hook.conflict.isSome then hook
    else
      match hook.flight with
      | some flight =>
        if flight.epoch = hook.lifecycle then { hook with saveRequested := true }
        else { hook with waiting := hook.waiting ++ [hook.lifecycle] }
      | none => hook.savePass conversion hook.encrypted

def Hook.wake (hook : Hook Doc) : List Nat → Hook Doc
  | [] => hook
  | epoch :: rest =>
    (if hook.lifecycle = epoch then hook.doSave conversion else hook).wake rest

def Hook.settle (hook : Hook Doc) (flight : Flight) : Hook Doc :=
  if hook.saveRequested && hook.lifecycle = flight.epoch then
    hook.savePass conversion flight.pass.encrypted
  else { hook with flight := none, waiting := [] }.wake conversion hook.waiting

/-- `cancel` of a generated change, while it is current. -/
def Hook.cancelGenerated (hook : Hook Doc) : Hook Doc :=
  if hook.generated.any fun generated => generated.epoch = hook.lifecycle then
    { hook with generated := none }
  else hook

/-- Nothing for a page that was left; else the flight fails, with those who wait for it. -/
def Hook.throws (hook : Hook Doc) (flight : Flight) (conflict : Option String) : Hook Doc :=
  let hook := { hook with saveRequested := false }
  if hook.lifecycle ≠ flight.epoch then hook.inFlight flight.pass .passed
  else
    let failed := { hook with
        timer := false
        conflict := conflict.or hook.conflict
        flight := none
        waiting := [] }
    if hook.generated.any fun generated => generated.stage = .draining then failed.cancelGenerated
    else failed

/-! ### What comes back to a pass -/

def PageFields.fill (ref fields server : PageFields) : PageFields :=
  { title := if ref.title = "" then server.title else fields.title
    tags := if ref.tags = [] then server.tags else fields.tags
    aliases := if ref.aliases = [] then server.aliases else fields.aliases }

def Hook.adoptEnsured (hook : Hook Doc) (result : EnsureResult) : Hook Doc := { hook with
    savePath := result.path
    revision := result.page.revision
    savedFields := result.page.fields
    savedBody := result.page.body
    fieldsRef := hook.fieldsRef.fill hook.fieldsRef result.page.fields
    fields := hook.fieldsRef.fill hook.fields result.page.fields
    isDraftRef := false
    ensured := true }

def Hook.afterEnsure (hook : Hook Doc) (flight : Flight) (result : EnsureResult) : Hook Doc :=
  let stale := hook.lifecycle ≠ flight.epoch
  if result.created = false ∧ jsTrim result.page.body ≠ "" then
    if stale then { hook with saveRequested := false }.inFlight flight.pass .passed
    else hook.throws flight (some result.page.revision)
  else
    (if stale then hook else hook.adoptEnsured result).proceed flight.pass result.path
      result.page.revision

def Hook.afterSave (hook : Hook Doc) (flight : Flight) (response : PageData) : Hook Doc :=
  if hook.lifecycle ≠ flight.epoch then hook.inFlight flight.pass .passed
  else
    let pass := flight.pass
    { hook with
      revision := response.revision
      savedFields := response.fields
      savedBody :=
        if pass.encrypted then (if pass.bodyChanged then pass.body else hook.savedBody)
        else response.body }.markSaved pass |>.inFlight pass .passed

def Hook.afterGenerated (hook : Hook Doc) (token epoch : Nat) (answer : Answer) : Hook Doc :=
  let current := hook.lifecycle = epoch
    ∧ (hook.generated.any fun generated => generated.token = token) = true
  if ¬current then hook
  else
    match answer with
    | .accepted canonical =>
      { hook with
        ignoredServerPage := hook.page.map Prod.fst
        savedBody := canonical.body
        revision := canonical.revision
        bodyOverride := none
        editorValue := conversion.markdownToSlate canonical.body
        savedBodyGen := hook.bodyEditGen
        savedMetaGen := hook.metaEditGen
        saveRequested := false }.cancelGenerated
    | .revisionConflict currentRevision =>
      { hook with conflict := some currentRevision }.cancelGenerated
    | .failed => hook.cancelGenerated

/-- `reloadAfterConflict` with the page it fetched. -/
def Hook.afterReload (hook : Hook Doc) (epoch : Nat) (latest : PageData)
    (decrypted : String) : Hook Doc :=
  let body := if latest.encrypted then decrypted else latest.body
  if hook.lifecycle ≠ epoch then hook
  else
    { hook with
      bodyOverride := none
      fieldsRef := latest.fields
      fields := latest.fields
      editorValue := conversion.markdownToSlate body
      savedFields := latest.fields
      savedBody := body
      savedBodyGen := hook.bodyEditGen
      savedMetaGen := hook.metaEditGen
      revision := latest.revision
      saveRequested := false
      conflict := none }

/-! ### Effects -/

def Hook.commit (hook : Hook Doc) : Hook Doc := { hook with
    fieldsRef := hook.fields
    isDraftRef := hook.isDraft
    ensureRef := hook.canDraft }

def Hook.syncs (hook : Hook Doc) : Bool :=
  hook.generated.isNone && hook.conflict.isNone && !hook.bodyDirty && !hook.metaDirty
    && hook.page.any fun page => some page.1 ≠ hook.ignoredServerPage

def Hook.sync (hook : Hook Doc) : Hook Doc :=
  match hook.page with
  | none => hook
  | some (_, page) =>
    if hook.syncs = false then hook
    else
      -- the refs follow with the next commit
      let hook := { hook with fields := page.fields }
      match hook.plainBody with
      | none => hook
      | some body =>
        { hook with
          bodyOverride := none
          savedFields := page.fields
          savedBody := body
          revision := page.revision
          editorValue := conversion.markdownToSlate body }

def Hook.flush (hook : Hook Doc) : Hook Doc :=
  if hook.timer then hook.doSave conversion else hook

def Hook.saveOffline (hook : Hook Doc) : Hook Doc :=
  if hook.online then hook else hook.doSave conversion

def Hook.reset (hook : Hook Doc) (path : String) : Hook Doc := { hook with
    lifecycle := hook.lifecycle + 1
    generated := none
    ignoredServerPage := none
    ensured := false
    fields := .blank
    fieldsRef := .blank
    savedFields := .blank
    savedBody := ""
    editorValue := conversion.empty
    bodyOverride := none
    revision := ""
    savePath := path
    bodyEditGen := 0
    metaEditGen := 0
    savedBodyGen := 0
    savedMetaGen := 0
    conflict := none }

structure Query where
  page : Option PageData
  plainBody : Option String
  notFound : Bool

def Query.plain (query : Query) : Option String :=
  match query.page with
  | none => none
  | some page => if page.encrypted then query.plainBody else some page.body

def Hook.take (hook : Hook Doc) (query : Query) : Hook Doc :=
  let same := hook.page.map Prod.snd = query.page
  { hook with
    page := if same then hook.page else query.page.map fun page => (hook.deliveries, page)
    deliveries := hook.deliveries + 1
    plainBody := query.plain
    pageNotFound := query.notFound }

def Hook.revisit (hook : Hook Doc) (path : String) (canDraft : Bool) (query : Query) : Hook Doc :=
  ((({ hook with path, canDraft, page := none }.take query).commit).reset conversion path).sync
    conversion

def Hook.navigate (hook : Hook Doc) (path : String) (canDraft : Bool) (query : Query) : Hook Doc :=
  ((hook.flush conversion).revisit conversion path canDraft query).saveOffline conversion

/-- `doSave` is another function when the page's encryption changes. -/
def Hook.renews (hook : Hook Doc) (query : Query) : Bool :=
  (hook.page.map fun page => page.2.encrypted) ≠ query.page.map PageData.encrypted

def Hook.rerender (hook : Hook Doc) (query : Query) : Hook Doc :=
  let shown := (hook.take query).commit
  if shown.page = hook.page ∧ shown.plainBody = hook.plainBody then shown
  else shown.sync conversion

def Hook.deliver (hook : Hook Doc) (query : Query) : Hook Doc :=
  if hook.renews query then
    ((hook.flush conversion).rerender conversion query).saveOffline conversion
  else hook.rerender conversion query

def Hook.mounting (path : String) (canDraft online : Bool) (query : Query)
    (server : String → String) : Hook Doc :=
  let blank : Hook Doc :=
    { path, online, mounted := true, page := none, plainBody := none, pageNotFound := false, canDraft
      ensured := false, isDraftRef := false, ensureRef := canDraft, fields := .blank
      fieldsRef := .blank, savedFields := .blank, savedBody := "", editorValue := conversion.empty
      bodyOverride := none, bodyEditGen := 0, metaEditGen := 0, savedBodyGen := 0, savedMetaGen := 0
      revision := "", savePath := path, saveRequested := false, flight := none, waiting := []
      timer := false, conflict := none, generated := none, ignoredServerPage := none, lifecycle := 0
      reloads := [], deliveries := 0, tokens := 0, requests := [], idle := [], server }
  ((blank.take query).commit).sync conversion

def Hook.mount (path : String) (canDraft online : Bool) (query : Query)
    (server : String → String) : Hook Doc :=
  (Hook.mounting conversion path canDraft online query server).saveOffline conversion

def Hook.lock (hook : Hook Doc) : Hook Doc := { hook with
    lifecycle := hook.lifecycle + 1
    editorValue := conversion.empty
    bodyOverride := none
    savedBody := ""
    bodyEditGen := 0
    savedBodyGen := 0
    plainBody := none }.sync conversion

/-! ### Edits -/

def Hook.scheduleSave (hook : Hook Doc) : Hook Doc :=
  if hook.generated.isSome ∨ hook.conflict.isSome then hook else { hook with timer := true }

inductive Edit (Doc : Type) where
  | title (title : String)
  | tags (tags : List String)
  | aliases (aliases : List String)
  | slate (value : Doc)
  | markdown (markdown : String)

inductive Value where
  | title (title : String)
  | tags (tags : List String)
  | aliases (aliases : List String)
  | body (body : String)
deriving DecidableEq

def Edit.value : Edit Doc → Value
  | .title text => .title text
  | .tags names => .tags names
  | .aliases names => .aliases names
  | .slate tree => .body (conversion.slateToMarkdown tree)
  | .markdown text => .body text

def Hook.edit (hook : Hook Doc) (edit : Edit Doc) : Hook Doc :=
  if hook.generated.isSome then hook
  else
    match edit with
    | .title title =>
      { hook with
        fields := { hook.fields with title }
        fieldsRef := { hook.fieldsRef with title }
        metaEditGen := hook.metaEditGen + 1 }.scheduleSave
    | .tags tags =>
      { hook with
        fields := { hook.fields with tags }
        fieldsRef := { hook.fieldsRef with tags }
        metaEditGen := hook.metaEditGen + 1 }.scheduleSave
    | .aliases aliases =>
      { hook with
        fields := { hook.fields with aliases }
        fieldsRef := { hook.fieldsRef with aliases }
        metaEditGen := hook.metaEditGen + 1 }.scheduleSave
    | .slate value =>
      { hook with
        editorValue := value
        bodyOverride := none
        bodyEditGen := hook.bodyEditGen + 1 }.scheduleSave
    | .markdown markdown =>
      { hook with
        bodyOverride := some markdown
        editorValue := conversion.markdownToSlate markdown
        bodyEditGen := hook.bodyEditGen + 1 }.scheduleSave

/-! ### Generated changes -/

def Hook.opening (hook : Hook Doc) (preparedBody : Option String) : Hook Doc :=
  let prepared :=
    match preparedBody with
    | none => hook
    | some body =>
      { hook with
        editorValue := conversion.markdownToSlate body
        bodyOverride := some body
        bodyEditGen := hook.bodyEditGen + 1 }
  { prepared with
    generated := some ⟨hook.tokens, hook.lifecycle, .draining⟩
    tokens := hook.tokens + 1 }

/-- `beginGeneratedChange` up to its draining save; a pending conflict rejects that. -/
def Hook.beginGenerated (hook : Hook Doc) (preparedBody : Option String) : Hook Doc :=
  let opened := (hook.opening conversion preparedBody).doSave conversion
  if opened.conflict.isSome then opened.cancelGenerated else opened

def Hook.drained (hook : Hook Doc) (generated : Generated) : Hook Doc :=
  let ignoring := { hook with ignoredServerPage := hook.page.map Prod.fst }
  if hook.lifecycle ≠ generated.epoch then hook
  else if hook.revision = "" then ignoring.cancelGenerated
  else
    { ignoring with
      generated := some { generated with stage := .ready hook.savePath hook.revision } }

end Hook

/-! ### Steps -/

inductive Step (Doc : Type) where
  | edit (edit : Edit Doc)
  | timer
  | saveNow
  | hide
  | setOnline (online : Bool)
  | commit
  | deliver (query : Query)
  | decrypted (body : String)
  | navigate (path : String) (canDraft : Bool) (query : Query)
  | unmount
  | lock
  | setReadonly
  | beginGenerated (preparedBody : Option String)
  | drained
  | writeGenerated
  | cancelGenerated
  | ensured (result : EnsureResult)
  | ensureFails
  | encrypted (body : String)
  | encryptFails
  | reach (request : Nat) (page : PageData)
  | lose (request : Nat)
  | answer (request : Nat)
  | settle
  | reload
  | reloaded (reload : Nat) (latest : PageData) (body : String)
  | reloadFails (reload : Nat)
  | foreignWrite (path revision : String)

section Steps

variable {Doc : Type} (conversion : Conversion Doc)

def Hook.reach (hook : Hook Doc) (index : Nat) (request : Request) (page : PageData) : Hook Doc :=
  let current := hook.server request.path
  if request.expectedRevision = current then
    { hook with
      server := Function.update hook.server request.path page.revision
      requests := hook.requests.set index { request with answer := some (.accepted page) } }
  else
    { hook with
      requests := hook.requests.set index
        { request with answer := some (.revisionConflict current) } }

def Hook.handle (hook : Hook Doc) (index : Nat) (request : Request) (answer : Answer) : Hook Doc :=
  let hook := { hook with requests := hook.requests.set index { request with handled := true } }
  match request.sender with
  | .save _ =>
    match hook.flight with
    | none => hook
    | some flight =>
      if flight.stage ≠ .requesting index then hook
      else
        match answer with
        | .accepted response => hook.afterSave flight response
        | .revisionConflict currentRevision => hook.throws flight (some currentRevision)
        | .failed => hook.throws flight none
  | .readonly _ => hook
  | .generated token epoch => hook.afterGenerated conversion token epoch answer

def step (hook : Hook Doc) : Step Doc → Option (Hook Doc)
  | .edit edit => if hook.mounted then some (hook.edit conversion edit) else none
  | .timer => if hook.timer then some (hook.doSave conversion) else none
  | .saveNow => if hook.mounted then some (hook.doSave conversion) else none
  | .hide => if hook.mounted then some (hook.flush conversion) else none
  | .setOnline online =>
    if hook.mounted ∧ hook.online ≠ online then
      some (({ hook with online }.commit).saveOffline conversion)
    else none
  | .commit => if hook.mounted then some hook.commit else none
  | .deliver query => if hook.mounted then some (hook.deliver conversion query) else none
  | .decrypted body =>
    if hook.mounted ∧ hook.encrypted ∧ hook.plainBody ≠ some body then
      some (({ hook with plainBody := some body }.commit).sync conversion)
    else none
  | .navigate path canDraft query =>
    if hook.mounted ∧ hook.path ≠ path then
      some (hook.navigate conversion path canDraft query)
    else none
  | .unmount =>
    if hook.mounted then some { hook.flush conversion with mounted := false } else none
  | .lock => if hook.mounted ∧ hook.encrypted then some (hook.lock conversion) else none
  | .setReadonly =>
    if hook.revision = "" then none
    else
      some { hook with
        requests := hook.requests ++
          [⟨.readonly hook.lifecycle, hook.path, hook.revision, none, none, none, none, none,
            false⟩] }
  | .beginGenerated preparedBody =>
    if hook.mounted ∧ hook.online ∧ hook.encrypted = false ∧ hook.generated.isNone
        ∧ (hook.page.any fun page => page.2.readonly) = false then
      some (hook.beginGenerated conversion preparedBody)
    else none
  | .drained =>
    match hook.generated, hook.flight with
    | some generated, none =>
      if generated.stage = .draining then some (hook.drained generated) else none
    | _, _ => none
  | .writeGenerated =>
    match hook.generated with
    | some ⟨token, epoch, .ready path revision⟩ =>
      if hook.lifecycle ≠ epoch then none
      else some { hook with
        generated := some ⟨token, epoch, .writing⟩
        requests := hook.requests ++
          [⟨.generated token epoch, path, revision, none, none, none, none, none, false⟩] }
    | _ => none
  | .cancelGenerated => some hook.cancelGenerated
  | .ensured result =>
    match hook.flight with
    | some flight =>
      if flight.stage = .ensuring then
        some ({ hook with
          server := Function.update hook.server result.path result.page.revision }.afterEnsure
            flight result)
      else none
    | none => none
  | .ensureFails =>
    match hook.flight with
    | some flight =>
      if flight.stage = .ensuring then some (hook.throws flight none) else none
    | none => none
  | .encrypted body =>
    match hook.flight with
    | some ⟨_, pass, .encrypting path revision⟩ =>
      some (hook.send pass path revision (some body))
    | _ => none
  | .encryptFails =>
    match hook.flight with
    | some ⟨epoch, pass, .encrypting path revision⟩ =>
      some (hook.throws ⟨epoch, pass, .encrypting path revision⟩ none)
    | _ => none
  | .reach index page =>
    match hook.requests[index]? with
    | some request =>
      if request.answer.isNone then some (hook.reach index request page) else none
    | none => none
  | .lose index =>
    match hook.requests[index]? with
    | some request =>
      if request.answer.isNone then
        some { hook with
          requests := hook.requests.set index { request with answer := some .failed } }
      else none
    | none => none
  | .answer index =>
    match hook.requests[index]? with
    | some request =>
      match request.answer with
      | some answer =>
        if request.handled then none
        else some (hook.handle conversion index request answer)
      | none => none
    | none => none
  | .settle =>
    match hook.flight with
    | some flight => if flight.stage = .passed then some (hook.settle conversion flight) else none
    | none => none
  | .reload =>
    if hook.conflict.isSome then
      some { hook with timer := false, reloads := hook.reloads ++ [hook.lifecycle] }
    else none
  | .reloaded index latest body =>
    match hook.reloads[index]? with
    | some epoch =>
      some ({ hook with reloads := hook.reloads.eraseIdx index }.afterReload conversion
        epoch latest body)
    | none => none
  | .reloadFails index =>
    match hook.reloads[index]? with
    | some _ => some { hook with reloads := hook.reloads.eraseIdx index }
    | none => none
  | .foreignWrite path revision =>
    some { hook with server := Function.update hook.server path revision }

def Taken (hook next : Hook Doc) : Step Doc → Prop
  | .edit edit => hook.mounted = true ∧ next = hook.edit conversion edit
  | .timer => hook.timer = true ∧ next = hook.doSave conversion
  | .saveNow => hook.mounted = true ∧ next = hook.doSave conversion
  | .hide => hook.mounted = true ∧ next = hook.flush conversion
  | .setOnline online => (hook.mounted = true ∧ hook.online ≠ online)
      ∧ next = ({ hook with online }.commit).saveOffline conversion
  | .commit => hook.mounted = true ∧ next = hook.commit
  | .deliver query => hook.mounted = true ∧ next = hook.deliver conversion query
  | .decrypted body => (hook.mounted = true ∧ hook.encrypted = true ∧ hook.plainBody ≠ some body)
      ∧ next = ({ hook with plainBody := some body }.commit).sync conversion
  | .navigate path canDraft query => (hook.mounted = true ∧ hook.path ≠ path)
      ∧ next = hook.navigate conversion path canDraft query
  | .unmount => hook.mounted = true ∧ next = { hook.flush conversion with mounted := false }
  | .lock => (hook.mounted = true ∧ hook.encrypted = true) ∧ next = hook.lock conversion
  | .setReadonly => ¬hook.revision = "" ∧ next = { hook with
      requests := hook.requests ++
        [⟨.readonly hook.lifecycle, hook.path, hook.revision, none, none, none, none, none,
          false⟩] }
  | .beginGenerated preparedBody =>
    (hook.mounted = true ∧ hook.online = true ∧ hook.encrypted = false
        ∧ hook.generated.isNone = true ∧ (hook.page.any fun page => page.2.readonly) = false)
      ∧ next = hook.beginGenerated conversion preparedBody
  | .drained => ∃ generated, hook.generated = some generated ∧ hook.flight = none
      ∧ generated.stage = .draining ∧ next = hook.drained generated
  | .writeGenerated => ∃ token path revision,
      hook.generated = some ⟨token, hook.lifecycle, .ready path revision⟩ ∧ next = { hook with
        generated := some ⟨token, hook.lifecycle, .writing⟩
        requests := hook.requests ++
          [⟨.generated token hook.lifecycle, path, revision, none, none, none, none, none, false⟩] }
  | .cancelGenerated => next = hook.cancelGenerated
  | .ensured result => ∃ flight, hook.flight = some flight ∧ flight.stage = .ensuring
      ∧ next = { hook with
          server := Function.update hook.server result.path result.page.revision }.afterEnsure
            flight result
  | .ensureFails => ∃ flight, hook.flight = some flight ∧ flight.stage = .ensuring
      ∧ next = hook.throws flight none
  | .encrypted body => ∃ epoch pass path revision,
      hook.flight = some ⟨epoch, pass, .encrypting path revision⟩
        ∧ next = hook.send pass path revision (some body)
  | .encryptFails => ∃ epoch pass path revision,
      hook.flight = some ⟨epoch, pass, .encrypting path revision⟩
        ∧ next = hook.throws ⟨epoch, pass, .encrypting path revision⟩ none
  | .reach index page => ∃ request, hook.requests[index]? = some request
      ∧ request.answer.isNone = true ∧ next = hook.reach index request page
  | .lose index => ∃ request, hook.requests[index]? = some request
      ∧ request.answer.isNone = true ∧ next = { hook with
        requests := hook.requests.set index { request with answer := some .failed } }
  | .answer index => ∃ request answer, hook.requests[index]? = some request
      ∧ request.answer = some answer ∧ ¬request.handled = true
      ∧ next = hook.handle conversion index request answer
  | .settle => ∃ flight, hook.flight = some flight ∧ flight.stage = .passed
      ∧ next = hook.settle conversion flight
  | .reload => hook.conflict.isSome = true
      ∧ next = { hook with timer := false, reloads := hook.reloads ++ [hook.lifecycle] }
  | .reloaded index latest body => ∃ epoch, hook.reloads[index]? = some epoch
      ∧ next = { hook with reloads := hook.reloads.eraseIdx index }.afterReload conversion epoch
          latest body
  | .reloadFails index => ∃ epoch, hook.reloads[index]? = some epoch
      ∧ next = { hook with reloads := hook.reloads.eraseIdx index }
  | .foreignWrite path revision =>
    next = { hook with server := Function.update hook.server path revision }

theorem taken_of_step {hook next : Hook Doc} {action : Step Doc}
    (steps : step conversion hook action = some next) : Taken conversion hook next action := by
  cases action with
  | drained =>
    simp only [step] at steps
    split at steps
    · rename_i generated isGenerated isFlight
      simp only [ite_none_right_eq_some, Option.some.injEq] at steps
      exact ⟨generated, isGenerated, isFlight, steps.1, steps.2.symm⟩
    · cases steps
  | writeGenerated =>
    simp only [step] at steps
    split at steps
    · rename_i token epoch path revision isGenerated
      simp only [ne_eq, ite_none_left_eq_some, not_not, Option.some.injEq] at steps
      obtain ⟨rfl, rfl⟩ := steps
      exact ⟨token, path, revision, isGenerated, rfl⟩
    · cases steps
  | ensured | ensureFails | settle =>
    simp only [step] at steps
    split at steps
    · rename_i flight isFlight
      simp only [ite_none_right_eq_some, Option.some.injEq] at steps
      exact ⟨flight, isFlight, steps.1, steps.2.symm⟩
    · cases steps
  | encrypted | encryptFails =>
    simp only [step] at steps
    split at steps
    · rename_i epoch pass path revision isFlight
      exact ⟨epoch, pass, path, revision, isFlight, (Option.some.inj steps).symm⟩
    · cases steps
  | reach | lose =>
    simp only [step] at steps
    split at steps
    · rename_i request found
      simp only [ite_none_right_eq_some, Option.some.injEq] at steps
      exact ⟨request, found, steps.1, steps.2.symm⟩
    · cases steps
  | answer index =>
    simp only [step] at steps
    split at steps
    · rename_i request found
      split at steps
      · rename_i answer isAnswer
        simp only [ite_none_left_eq_some, Option.some.injEq] at steps
        exact ⟨request, answer, found, isAnswer, steps.1, steps.2.symm⟩
      · cases steps
    · cases steps
  | reloaded | reloadFails =>
    simp only [step] at steps
    split at steps
    · rename_i epoch found
      exact ⟨epoch, found, (Option.some.inj steps).symm⟩
    · cases steps
  | setReadonly =>
    simp only [step, ite_none_left_eq_some, Option.some.injEq] at steps
    exact ⟨steps.1, steps.2.symm⟩
  | cancelGenerated | foreignWrite => exact (Option.some.inj steps).symm
  | _ =>
    simp only [step, ite_none_right_eq_some, Option.some.injEq] at steps
    exact ⟨steps.1, steps.2.symm⟩

end Steps

/-! ### What a save leaves -/

section Frames

variable {Doc : Type} (conversion : Conversion Doc)

theorem savePass_frame (hook : Hook Doc) (encrypted : Bool) :
    ∃ bodyOverride savedBodyGen savedMetaGen flight requests idle,
      hook.savePass conversion encrypted = { hook with
            saveRequested := false, bodyOverride, savedBodyGen, savedMetaGen, flight, requests
            idle } := by
  unfold Hook.savePass Hook.proceed
  simp only
  split_ifs
  · exact ⟨_, _, _, _, _, _, rfl⟩
  · exact ⟨_, _, _, _, _, _, rfl⟩
  · exact ⟨_, _, _, _, _, _, rfl⟩
  · exact ⟨_, _, _, _, _, _, rfl⟩
  · exact ⟨_, _, _, _, _, _, rfl⟩

theorem doSave_frame (hook : Hook Doc) :
    ∃ bodyOverride savedBodyGen savedMetaGen saveRequested flight waiting timer requests idle,
      hook.doSave conversion = { hook with
            bodyOverride, savedBodyGen, savedMetaGen, saveRequested, flight, waiting, timer, requests
            idle } := by
  unfold Hook.doSave
  simp only
  split_ifs
  · exact ⟨_, _, _, _, _, _, _, _, _, rfl⟩
  · exact ⟨_, _, _, _, _, _, _, _, _, rfl⟩
  · split
    · split_ifs
      · exact ⟨_, _, _, _, _, _, _, _, _, rfl⟩
      · exact ⟨_, _, _, _, _, _, _, _, _, rfl⟩
    · have ⟨bodyOverride, savedBodyGen, savedMetaGen, flight, requests, idle, same⟩ :=
        savePass_frame conversion { hook with timer := false }
          ({ hook with timer := false } : Hook Doc).encrypted
      rw [same]
      exact ⟨bodyOverride, savedBodyGen, savedMetaGen, _, flight, _, _, requests, idle, rfl⟩

theorem flush_frame (hook : Hook Doc) :
    ∃ bodyOverride savedBodyGen savedMetaGen saveRequested flight waiting timer requests idle,
      hook.flush conversion = { hook with
            bodyOverride, savedBodyGen, savedMetaGen, saveRequested, flight, waiting, timer, requests
            idle } := by
  unfold Hook.flush
  split_ifs
  · exact doSave_frame conversion hook
  · exact ⟨_, _, _, _, _, _, _, _, _, rfl⟩

theorem lifecycle_flush (hook : Hook Doc) : (hook.flush conversion).lifecycle = hook.lifecycle := by
  have ⟨_, _, _, _, _, _, _, _, _, isFrame⟩ := flush_frame conversion hook
  rw [isFrame]

end Frames

/-! ### Sample pages -/

def plainText : Conversion String := ⟨id, id, ""⟩

def samplePage (revision : String) (hasRevision : revision ≠ "") (title : String) : Query :=
  { page := some ⟨revision, hasRevision, some title, none, none, "", false, false⟩
    plainBody := none
    notFound := false }

end Clepsydra.Editor
