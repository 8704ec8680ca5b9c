import Clepsydra.Archive.Cas
import Clepsydra.Library.Bytes
import Clepsydra.Vault.InlineProperty

/-!
Owns: the deconstruction of a snapshot: its inlined resources are kept by their hash.

Proves: the text around the lifted URIs stays; exactly when each has its resource.
-/

namespace Clepsydra.Archive.Snapshot

open Library Library.Regex Library.Utf8 Vault Vault.Blocks List

structure SnapshotResource where
  hash : String
  contentType : List Char
  bytes : Bytes

structure Deconstructed where
  html : List Char
  resources : List SnapshotResource

def octetStream : List Char := "application/octet-stream".toList

def isMediaTypeChar (character : Char) : Bool :=
  !(character == ',' || character == '"' || character == '\'' || isWhitespace character
    || character == ')')

def isPayloadChar (character : Char) : Bool :=
  character.isAlphanum || character == '+' || character == '/' || character == '='

/-- `data:([^,"'\s)]*?);base64,([A-Za-z0-9+/=]*)`, where the comma ends the first group. -/
def dataUriPattern : Pattern :=
  .seq (.literal "data:".toList) <| .seq (.group 1 (.star (.one isMediaTypeChar))) <|
    .seq (.literal ";base64,".toList) (.group 2 (.star (.one isPayloadChar)))

def contentTypeOf (mediaType : List Char) : List Char :=
  let trimmed := Trim.trim isWhitespace mediaType
  if trimmed.isEmpty then octetStream else trimmed

variable (decode : List Char → Option Bytes) (hashBytes : Bytes → String)

structure Deconstruction where
  out : List Char
  resources : List SnapshotResource
  lastEnd : Nat

def reference (bytes : Bytes) : List Char := "cas:".toList ++ (hashBytes bytes).toList

/-- `seen` has the hashes of the resources. -/
def addResource (resources : List SnapshotResource) (mediaType : List Char) (bytes : Bytes) :
    List SnapshotResource :=
  if resources.any fun resource => resource.hash = hashBytes bytes then resources
  else resources ++ [⟨hashBytes bytes, contentTypeOf mediaType, bytes⟩]

def deconstructStep (html : List Char) (state : Deconstruction) (captures : Captures) :
    Deconstruction :=
  match decode (capture captures.groups 2) with
  | none => state
  | some bytes =>
    if bytes.isEmpty then state
    else
      { out := state.out ++ slice html state.lastEnd captures.start ++ reference hashBytes bytes
        resources := addResource hashBytes state.resources (capture captures.groups 1) bytes
        lastEnd := captures.stop }

def deconstruct (html : List Char) : Deconstructed :=
  let state := (capturesIter dataUriPattern html).foldl (deconstructStep decode hashBytes html)
    ⟨[], [], 0⟩
  ⟨state.out ++ (getFrom html state.lastEnd).getD [], state.resources⟩

/-! ### What deconstruction is for -/

/-- A `data:` URI that is lifted. -/
structure Lifted where
  captures : Captures
  mediaType : List Char
  payload : List Char
  bytes : Bytes

def Lifted.text (lifted : Lifted) : List Char :=
  "data:".toList ++ lifted.mediaType ++ ";base64,".toList ++ lifted.payload

def liftedOf (captures : Captures) : Option Lifted :=
  match decode (capture captures.groups 2) with
  | none => none
  | some bytes =>
    if bytes.isEmpty then none
    else some ⟨captures, capture captures.groups 1, capture captures.groups 2, bytes⟩

def liftedUris (html : List Char) : List Lifted :=
  (capturesIter dataUriPattern html).filterMap (liftedOf decode)

def continues (html : List Char) (stop : Nat) : Bool :=
  ((getFrom html stop).getD []).head?.any fun character =>
    character == '%' || character == '-' || character == '_'

def declared (mediaType : List Char) : List Char :=
  if mediaType.isEmpty then octetStream else mediaType

def weave : List (List Char) → List (List Char) → List Char
  | text :: texts, part :: parts => text ++ part ++ weave texts parts
  | texts, _ => texts.flatten

structure LosesNothing (html : List Char) : Prop where
  around : ∃ texts, texts.length = (liftedUris decode html).length + 1
    ∧ html = weave texts ((liftedUris decode html).map Lifted.text)
    ∧ (deconstruct decode hashBytes html).html
      = weave texts ((liftedUris decode html).map fun lifted => reference hashBytes lifted.bytes)
  ends : ∀ lifted ∈ liftedUris decode html, continues html lifted.captures.stop = false
  distinct : ((deconstruct decode hashBytes html).resources.map SnapshotResource.hash).Nodup
  held : ∀ lifted ∈ liftedUris decode html, decode lifted.payload = some lifted.bytes
      ∧ ⟨hashBytes lifted.bytes, declared lifted.mediaType, lifted.bytes⟩
        ∈ (deconstruct decode hashBytes html).resources

/-! ### Matches -/

theorem all_of_mem_starSteps {accepts : Char → Bool} (rounds : Nat) : ∀ {atStart : Bool}
    {text : List Char}, ∀ step ∈ starSteps (steps (.one accepts)) rounds atStart text,
      ∀ character ∈ step.taken, accepts character = true := by
  induction rounds with
  | zero =>
    intro atStart text step member
    rw [mem_singleton.1 member]
    exact forall_mem_nil _
  | succ rounds ih =>
    intro atStart text step member
    rcases mem_append.1 member with repeated | isEnd
    · have ⟨first, isFirst, more⟩ := mem_flatMap.1 repeated
      obtain ⟨later, isLater, rfl⟩ := mem_map.1 more
      obtain ⟨head, _, _, accepted, rfl⟩ := mem_steps_one.1 (mem_of_mem_filter isFirst)
      exact forall_mem_cons.2 ⟨accepted, ih later isLater⟩
    · rw [mem_singleton.1 isEnd]
      exact forall_mem_nil _

/-- A match is a URI; its type has no white space. -/
theorem dataUri_shape {atStart : Bool} {text : List Char} {step : Step}
    (isStep : step ∈ steps dataUriPattern atStart text) : ∃ mediaType payload,
      step.taken = "data:".toList ++ mediaType ++ ";base64,".toList ++ payload
        ∧ step.groups = [(1, mediaType), (2, payload)]
        ∧ ∀ character ∈ mediaType, isMediaTypeChar character = true := by
  obtain ⟨scheme, isScheme, _, afterScheme, rfl⟩ := mem_steps_seq.1 isStep
  obtain ⟨media, isMedia, _, afterMedia, rfl⟩ := mem_steps_seq.1 afterScheme
  obtain ⟨marker, isMarker, rest, isRest, rfl⟩ := mem_steps_seq.1 afterMedia
  obtain ⟨mediaType, isMediaType, rfl⟩ := mem_steps_group.1 isMedia
  obtain ⟨payload, isPayload, rfl⟩ := mem_steps_group.1 isRest
  have ⟨schemeTaken, schemeGroups⟩ := taken_of_literal _ isScheme
  have ⟨markerTaken, markerGroups⟩ := taken_of_literal _ isMarker
  have mediaGroups := groups_of_groupless (by rfl) _ _ _ isMediaType
  have payloadGroups := groups_of_groupless (by rfl) _ _ _ isPayload
  refine ⟨mediaType.taken, payload.taken, ?_, ?_, all_of_mem_starSteps _ _ isMediaType⟩
  · simp [Step.andThen, schemeTaken, markerTaken]
  · simp [Step.andThen, schemeGroups, markerGroups, mediaGroups, payloadGroups]

theorem contentTypeOf_eq {mediaType : List Char}
    (plain : ∀ character ∈ mediaType, isMediaTypeChar character = true) :
    contentTypeOf mediaType = declared mediaType := by
  have solid : ∀ character ∈ mediaType, isWhitespace character = false := by
    intro character member
    have isPlain := plain character member
    simp only [isMediaTypeChar, Bool.not_eq_true', Bool.or_eq_false_iff] at isPlain
    exact isPlain.1.2
  have trimmed : Trim.trim isWhitespace mediaType = mediaType :=
    Trim.trim_eq_self_iff.2 ⟨fun character isHead => solid _ (mem_of_head? isHead),
      fun character isLast => solid _ (mem_of_getLast? isLast)⟩
  rw [contentTypeOf, trimmed, declared]

/-! ### The loop -/

section Loop

variable {decode hashBytes} {html : List Char}

def liftStep (hashBytes : Bytes → String) (html : List Char) (state : Deconstruction)
    (lifted : Lifted) : Deconstruction where
  out := state.out ++ slice html state.lastEnd lifted.captures.start
    ++ reference hashBytes lifted.bytes
  resources := addResource hashBytes state.resources lifted.mediaType lifted.bytes
  lastEnd := lifted.captures.stop

/-- The matches that are not lifted change nothing. -/
theorem foldl_deconstructStep (found : List Captures) : ∀ state,
    found.foldl (deconstructStep decode hashBytes html) state
      = (found.filterMap (liftedOf decode)).foldl (liftStep hashBytes html) state := by
  induction found with
  | nil => exact fun _ => rfl
  | cons captures found ih =>
    intro state
    rw [foldl_cons, ih, filterMap_cons, deconstructStep, liftedOf]
    cases decode (capture captures.groups 2) with
    | none => rfl
    | some bytes => cases bytes <;> rfl

def around (html : List Char) (lastEnd : Nat) : List Lifted → List (List Char)
  | [] => [(getFrom html lastEnd).getD []]
  | lifted :: rest =>
    slice html lastEnd lifted.captures.start :: around html lifted.captures.stop rest

theorem length_around (lifted : List Lifted) : ∀ lastEnd,
    (around html lastEnd lifted).length = lifted.length + 1 := by
  induction lifted with
  | nil => exact fun _ => rfl
  | cons _ _ ih =>
    exact fun _ => congrArg Nat.succ (ih _)

theorem out_foldl (lifted : List Lifted) : ∀ state,
    (lifted.foldl (liftStep hashBytes html) state).out
        ++ (getFrom html (lifted.foldl (liftStep hashBytes html) state).lastEnd).getD []
      = state.out ++ weave (around html state.lastEnd lifted)
          (lifted.map fun lifted => reference hashBytes lifted.bytes) := by
  induction lifted with
  | nil =>
    intro state
    rw [foldl_nil, around, map_nil, weave, flatten_singleton]
    exact nofun
  | cons lifted rest ih =>
    intro state
    rw [foldl_cons, ih, around, map_cons, weave]
    simp only [liftStep, append_assoc]

theorem captures_of_liftedOf {captures : Captures} {lifted : Lifted}
    (isLifted : liftedOf decode captures = some lifted) : lifted.captures = captures := by
  rw [liftedOf] at isLifted
  cases decoded : decode (capture captures.groups 2) <;> rw [decoded] at isLifted
  · cases isLifted
  · dsimp only at isLifted
    split_ifs at isLifted
    exact (congrArg Lifted.captures (Option.some.inj isLifted)).symm

theorem lifted_of_mem {lifted : Lifted} (member : lifted ∈ liftedUris decode html) :
    lifted.captures ∈ capturesIter dataUriPattern html
      ∧ lifted.mediaType = capture lifted.captures.groups 1
      ∧ lifted.payload = capture lifted.captures.groups 2
      ∧ decode lifted.payload = some lifted.bytes := by
  have ⟨captures, isCaptures, isLifted⟩ := mem_filterMap.1 member
  rw [liftedOf] at isLifted
  cases decoded : decode (capture captures.groups 2) with
  | none =>
    rw [decoded] at isLifted
    cases isLifted
  | some bytes =>
    rw [decoded] at isLifted
    dsimp only at isLifted
    split_ifs at isLifted
    obtain rfl := Option.some.inj isLifted
    exact ⟨isCaptures, rfl, rfl, decoded⟩

/-- A lifted URI in what is still to do, after the text that precedes it. -/
theorem exists_split {lifted : Lifted} (member : lifted ∈ liftedUris decode html)
    {done todo : List Char} (isText : html = done ++ todo)
    (after : byteLen done ≤ lifted.captures.start) :
    ∃ middle last, todo = middle ++ lifted.text ++ last
      ∧ byteLen (done ++ middle) = lifted.captures.start
      ∧ byteLen (done ++ middle ++ lifted.text) = lifted.captures.stop
      ∧ contentTypeOf lifted.mediaType = declared lifted.mediaType := by
  have ⟨isCaptures, isMedia, isPayload, _⟩ := lifted_of_mem member
  have isPart := (isPart_of_mem_capturesFrom isCaptures).1
  have ⟨middle, taken, last, _, isTodo, isStart, isStop, isStep⟩ := isPart.split isText after
  have ⟨mediaType, payload, isTaken, isGroups, plain⟩ := dataUri_shape isStep
  dsimp only at isTaken isGroups
  rw [isGroups] at isMedia isPayload
  obtain rfl : lifted.mediaType = mediaType := isMedia
  obtain rfl : lifted.payload = payload := isPayload
  obtain rfl : taken = lifted.text := isTaken
  exact ⟨middle, last, isTodo, isStart, isStop, contentTypeOf_eq plain⟩

/-- **The URIs between the texts around them are the text.** -/
theorem weave_around {lifted : List Lifted} : ∀ {done todo : List Char}, html = done ++ todo →
    (∀ uri ∈ lifted, uri ∈ liftedUris decode html ∧ byteLen done ≤ uri.captures.start) →
    (lifted.Pairwise fun first second => first.captures.stop ≤ second.captures.start) →
    weave (around html (byteLen done) lifted) (lifted.map Lifted.text) = todo := by
  induction lifted with
  | nil =>
    intro done todo isText _ _
    rw [around, map_nil, weave, flatten_singleton,
      getFrom_eq_some_iff.2 ⟨done, isText, rfl⟩, Option.getD_some]
    exact nofun
  | cons lifted rest ih =>
    intro done todo isText found ordered
    rw [forall_mem_cons] at found
    have ⟨before, orderedRest⟩ := pairwise_cons.1 ordered
    have ⟨middle, last, isTodo, isStart, isStop, _⟩ := exists_split found.1.1 isText found.1.2
    have isSlice : slice html (byteLen done) lifted.captures.start = middle := by
      have here := getRange_append done middle (lifted.text ++ last)
      rw [← byteLen_append, isStart] at here
      rw [isText, isTodo, slice]
      simp only [append_assoc] at here ⊢
      rw [here, Option.getD_some]
    have isRest : html = (done ++ middle ++ lifted.text) ++ last := by
      rw [isText, isTodo]
      simp only [append_assoc]
    have woven := ih isRest
      (fun uri member => ⟨(found.2 uri member).1, isStop ▸ before uri member⟩) orderedRest
    rw [isStop] at woven
    rw [around, map_cons, weave, isSlice, woven, isTodo]

/-! ### Resources -/

theorem resources_foldl (lifted : List Lifted) : ∀ state,
    (lifted.foldl (liftStep hashBytes html) state).resources = lifted.foldl (fun resources lifted =>
          addResource hashBytes resources lifted.mediaType lifted.bytes) state.resources := by
  induction lifted with
  | nil => exact fun _ => rfl
  | cons lifted rest ih => exact fun _ => ih _

structure Keeps (hashBytes : Bytes → String) (lifted : List Lifted)
    (resources : List SnapshotResource) : Prop where
  distinct : (resources.map SnapshotResource.hash).Nodup
  kept : ∀ uri ∈ lifted, hashBytes uri.bytes ∈ resources.map SnapshotResource.hash
  own : ∀ resource ∈ resources, ∃ uri ∈ lifted,
    resource = ⟨hashBytes uri.bytes, contentTypeOf uri.mediaType, uri.bytes⟩

theorem Keeps.add {lifted : List Lifted} {resources : List SnapshotResource}
    (keeps : Keeps hashBytes lifted resources) (uri : Lifted) :
    Keeps hashBytes (lifted ++ [uri])
      (addResource hashBytes resources uri.mediaType uri.bytes) := by
  unfold addResource
  have own : ∀ resource ∈ resources, ∃ other ∈ lifted ++ [uri],
      resource = ⟨hashBytes other.bytes, contentTypeOf other.mediaType, other.bytes⟩ := by
    intro resource member
    have ⟨other, isLifted, isOwn⟩ := keeps.own resource member
    exact ⟨other, mem_append_left _ isLifted, isOwn⟩
  by_cases seen : resources.any (fun resource => resource.hash = hashBytes uri.bytes) = true
  · rw [if_pos seen]
    refine ⟨keeps.distinct, ?_, own⟩
    rw [forall_mem_append, forall_mem_singleton]
    refine ⟨keeps.kept, ?_⟩
    have ⟨resource, member, isHash⟩ := any_eq_true.1 seen
    exact mem_map.2 ⟨resource, member, of_decide_eq_true isHash⟩
  · rw [if_neg seen]
    have fresh : hashBytes uri.bytes ∉ resources.map SnapshotResource.hash := by
      simpa using seen
    refine ⟨?_, ?_, ?_⟩
    · rw [map_append, map_singleton]
      exact List.Nodup.append keeps.distinct (pairwise_singleton _ _) (disjoint_singleton.2 fresh)
    · rw [map_append, forall_mem_append, forall_mem_singleton]
      exact ⟨fun other member => mem_append_left _ (keeps.kept other member),
        mem_append_right _ (mem_singleton_self _)⟩
    · rw [forall_mem_append, forall_mem_singleton]
      exact ⟨own, uri, mem_append_right _ (mem_singleton_self _), rfl⟩

theorem keeps_foldl (lifted : List Lifted) : ∀ {earlier : List Lifted}
    {resources : List SnapshotResource}, Keeps hashBytes earlier resources →
      Keeps hashBytes (earlier ++ lifted) (lifted.foldl (fun resources lifted =>
        addResource hashBytes resources lifted.mediaType lifted.bytes) resources) := by
  induction lifted with
  | nil =>
    intro earlier resources keeps
    rw [append_nil]
    exact keeps
  | cons uri rest ih =>
    intro earlier resources keeps
    rw [append_cons]
    exact ih (keeps.add uri)

theorem keeps_deconstruct :
    Keeps hashBytes (liftedUris decode html) (deconstruct decode hashBytes html).resources := by
  have empty : Keeps hashBytes [] [] := ⟨.nil, nofun, nofun⟩
  have kept := keeps_foldl (liftedUris decode html) empty
  rw [nil_append] at kept
  rw [deconstruct, foldl_deconstructStep, resources_foldl]
  exact kept

end Loop

/-- **Deconstruction loses nothing** just when no lifted URI goes on behind its payload and no two
declare the same bytes with different types. -/
theorem losesNothing_iff {html : List Char}
    (injective : ∀ uri ∈ liftedUris decode html, ∀ other ∈ liftedUris decode html,
      hashBytes uri.bytes = hashBytes other.bytes → uri.bytes = other.bytes) :
    LosesNothing decode hashBytes html
      ↔ (∀ uri ∈ liftedUris decode html, continues html uri.captures.stop = false)
        ∧ ∀ uri ∈ liftedUris decode html, ∀ other ∈ liftedUris decode html,
            uri.bytes = other.bytes → declared uri.mediaType = declared other.mediaType := by
  have keeps := @keeps_deconstruct decode hashBytes html
  have types : ∀ uri ∈ liftedUris decode html,
      contentTypeOf uri.mediaType = declared uri.mediaType := by
    intro uri member
    have isHtml := (nil_append html).symm
    have ⟨_, _, _, _, _, isType⟩ := exists_split member isHtml (Nat.zero_le _)
    exact isType
  constructor
  · intro loses
    refine ⟨loses.ends, fun uri isUri other isOther same => ?_⟩
    have first := (loses.held uri isUri).2
    have second := (loses.held other isOther).2
    rw [← same] at second
    have isOne := inj_on_of_nodup_map loses.distinct first second rfl
    exact congrArg SnapshotResource.contentType isOne
  · rintro ⟨ends, agree⟩
    refine ⟨⟨around html 0 (liftedUris decode html), length_around _ 0, ?_, ?_⟩, ends,
      keeps.distinct, fun uri isUri => ⟨(lifted_of_mem isUri).2.2.2, ?_⟩⟩
    · have ordered : (liftedUris decode html).Pairwise
          fun first second => first.captures.stop ≤ second.captures.start := by
        apply List.Pairwise.filterMap _ _ pairwise_capturesFrom
        intro first second before uri isUri other isOther
        rwa [captures_of_liftedOf isUri, captures_of_liftedOf isOther]
      exact (weave_around (nil_append html).symm
        (fun uri member => ⟨member, Nat.zero_le _⟩) ordered).symm
    · rw [deconstruct, foldl_deconstructStep]
      exact out_foldl _ _
    · have ⟨resource, member, isHash⟩ := mem_map.1 (keeps.kept uri isUri)
      obtain ⟨other, isOther, rfl⟩ := keeps.own resource member
      have same := injective other isOther uri isUri isHash
      rw [← agree other isOther uri isUri same, ← same, ← types other isOther]
      exact member

/-! ### The same bytes twice -/

def imageUri (mediaType : String) : List Char :=
  "<img src=\"data:".toList ++ mediaType.toList ++ ";base64,AAAA\">".toList

def zerosHash : String := "sha256:709e80c88487a2411e1ee4dfb9f22a861492d20c4765150c0c794abd70f8147c"

theorem losesNothing_image :
    LosesNothing Base64.atob (fun _ => zerosHash) (imageUri "image/png") := by
  have single : ∀ uri ∈ liftedUris Base64.atob (imageUri "image/png"),
      uri.bytes = [0, 0, 0] ∧ uri.mediaType = "image/png".toList
        ∧ continues (imageUri "image/png") uri.captures.stop = false := by
    decide
  refine (losesNothing_iff Base64.atob (fun _ => zerosHash) ?_).2 ⟨?_, ?_⟩
  · exact fun uri isUri other isOther _ => (single uri isUri).1.trans (single other isOther).1.symm
  · exact fun uri isUri => (single uri isUri).2.2
  · exact fun uri isUri other isOther _ =>
      congrArg declared ((single uri isUri).2.1.trans (single other isOther).2.1.symm)

/-- The same bytes as a PNG and as a GIF are both served as a PNG. -/
theorem loses_type : ¬LosesNothing Base64.atob (fun _ => zerosHash)
    (imageUri "image/png" ++ imageUri "image/gif") := by
  intro loses
  have member : ∀ uri ∈ liftedUris Base64.atob (imageUri "image/png" ++ imageUri "image/gif"),
      ∃ resource ∈ (deconstruct Base64.atob (fun _ => zerosHash)
        (imageUri "image/png" ++ imageUri "image/gif")).resources,
        resource.contentType = declared uri.mediaType :=
    fun uri isUri => ⟨_, (loses.held uri isUri).2, rfl⟩
  have differs : ¬∀ uri ∈ liftedUris Base64.atob (imageUri "image/png" ++ imageUri "image/gif"),
      ∃ resource ∈ (deconstruct Base64.atob (fun _ => zerosHash)
        (imageUri "image/png" ++ imageUri "image/gif")).resources,
        resource.contentType = declared uri.mediaType := by
    decide
  exact differs member

end Clepsydra.Archive.Snapshot
