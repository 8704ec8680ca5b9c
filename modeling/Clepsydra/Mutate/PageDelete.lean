import Clepsydra.Mutate.Batch
import Clepsydra.Mutate.RelativePath
import Clepsydra.Vault.PageMeta
import Clepsydra.Vault.Rewriter

/-!
Owns: the plan for the deletion of a page, with the links to it rewritten in the pages that refer
to it.

Proves: exactly when the rewriting leaves clean text in a referring page.
-/

namespace Clepsydra.Mutate

open Library List
open Option (some.inj)
open Library.Splice (Edit)
open Vault Vault.Rewriter

/-! ### Plans -/

inductive RewriteMode where
  | plainText
  | unlink
  | none

structure PlannedTextEdit where
  path : String
  oldText : String
  newText : String
deriving DecidableEq

structure StagedWrite where
  path : VaultPath
  expectedBytes : Bytes
  content : String
deriving DecidableEq

/-- The parts of `MutationPlan` that a deletion fills. -/
structure MutationPlan where
  deletedFiles : List String
  textEdits : List PlannedTextEdit
  indexEvents : List ChangeEvent
  stagedWrites : List StagedWrite
  primaryIntents : List BatchPathIntent
deriving DecidableEq

inductive PlanError where
  | path (error : VaultPath.PathError)
  | io (path : VaultPath)
  | index
deriving DecidableEq

structure Sources (Time Value : Type) where
  nfc : String → String
  files : Tree
  /-- `find_backlink_pages`: the paths of the pages with a link to a page. -/
  backlinkPages : VaultPath → String → Except PlanError (List String)
  /-- The frontmatter `parse_or_repair_frontmatter` reads. -/
  frontmatter : String → PageMeta Time Value
  markdown : List Char → List Located

/-- `VaultPath::stem`. -/
def stemOf (path : VaultPath) : String :=
  let filename := filenameOf path.asStr
  let before := (filename.toList.reverse.dropWhile (· ≠ '.')).tail.reverse
  if before = [] then filename else String.ofList before

namespace RewriteMode

def sentinelPrefix : RewriteMode → Option (List Char)
  | .plainText => some deletePlain
  | .unlink => some deleteUnlink
  | .none => Option.none

end RewriteMode

def deletedNames (stem display relative : String) : List String :=
  [stem] ++ (if display ≠ stem then [display] else [])
    ++ (if relative ≠ stem then [relative] else [])

def deleteReplacements (names : List String) (sentinel : List Char) : Replacements :=
  names.map fun name => (name.toList, sentinel)

section Planning

variable {Time Value : Type} (sources : Sources Time Value)

def Sources.path (raw : String) : Except PlanError VaultPath :=
  (VaultPath.new sources.nfc raw).mapError .path

def Sources.readBytes (path : VaultPath) : Except PlanError Bytes :=
  match sources.files.nodeAt path with
  | some (.file content) => .ok content
  | _ => .error (.io path)

/-- `std::str::from_utf8`. -/
def fromUtf8 (bytes : Bytes) : Option String := String.fromUTF8? bytes.toByteArray

def Sources.readText (path : VaultPath) : Except PlanError (Bytes × String) := do
  let bytes ← sources.readBytes path
  match fromUtf8 bytes with
  | some content => .ok (bytes, content)
  | none => .error (.io path)

def Sources.isProtectedContent (content : String) : Bool :=
  (sources.frontmatter content).encryption.isSome

def Sources.displayText (stem : String) (bytes : Bytes) : String :=
  ((fromUtf8 bytes).bind fun content => (sources.frontmatter content).title).getD stem

def Sources.rewritten (names : List String) (sentinel : List Char) (content : String) : String :=
  let replacements := deleteReplacements names sentinel
  String.ofList (rewriteLinksInContent content.toList replacements replacements sources.markdown)

def namesIn (target : VaultPath) (display : String) (referring : VaultPath) : List String :=
  deletedNames (stemOf target) display (computeRelativePath referring.asStr target.asStr)

def Sources.stageReferring (target : VaultPath) (display : String) (sentinel : List Char)
    (reference : String) : Except PlanError (Option (StagedWrite × List PlannedTextEdit)) := do
  let path ← sources.path reference
  let (bytes, content) ← sources.readText path
  if sources.isProtectedContent content then .ok none
  else
    let names := namesIn target display path
    let newContent := sources.rewritten names sentinel content
    if newContent = content then .ok none
    else .ok (some (⟨path, bytes, newContent⟩, names.map fun name => ⟨reference, name, display⟩))

/-- `plan_page_delete`. -/
def Sources.planPageDelete (path : String) (rewrite : RewriteMode) :
    Except PlanError MutationPlan := do
  let target ← sources.path path
  let targetBytes ← sources.readBytes target
  let plan : MutationPlan := ⟨[path], [], [.remove target], [], [.delete target targetBytes]⟩
  match rewrite.sentinelPrefix with
  | none => .ok plan
  | some sentinelPrefix =>
    let display := sources.displayText (stemOf target) targetBytes
    let backlinkPages ← sources.backlinkPages target (stemOf target)
    let staged ← (backlinkPages.filter (· ≠ path)).mapM
      (sources.stageReferring target display (sentinelPrefix ++ display.toList))
    let changed := staged.reduceOption
    .ok { plan with
      textEdits := changed.flatMap Prod.snd
      stagedWrites := changed.map Prod.fst
      indexEvents := plan.indexEvents ++ changed.map fun change => .upsert change.1.path }

end Planning

/-! ### Clean text -/

def RewriteMode.shown (mode : RewriteMode) (display : List Char) : List Char :=
  match mode with
  | .unlink => ['~', '~'] ++ display ++ ['~', '~']
  | _ => display

section Clean

variable (names : List (List Char)) (content : List Char)

theorem lawfulBEq_name : LawfulBEq (List Char) := inferInstance

attribute [local instance] lawfulBEq_name in
def linkRanges (located : Located) : List (Nat × Nat) :=
  match located.event with
  | .startLink _ destUrl =>
    if destUrl ∈ names then [(located.start, located.stop)] else []
  | .text =>
    ((wikilinks (located.source content)).filter fun wikilink => wikilink.target ∈ names).map
      fun wikilink => (located.start + wikilink.start, located.start + wikilink.stop)
  | _ => []

def IsMarkdownLink (located : Located) : Prop :=
  ∃ linkType, ∃ name ∈ names, located.event = .startLink linkType name

def HasWikilink (located : Located) : Prop := located.event = .text
    ∧ ∃ wikilink ∈ wikilinks (located.source content), wikilink.target ∈ names

/-- A wikilink gives way to a text, and a destination to none of the names. -/
structure LeavesNone (shown : List Char) (events : List Located) (edits : List (Edit Char)) :
    Prop where
  wikilinks : ∀ located ∈ events, located.event = .text →
    ∀ wikilink ∈ wikilinks (located.source content), wikilink.target ∈ names →
      ⟨located.start + wikilink.start, located.start + wikilink.stop, shown⟩ ∈ edits
  markdownLinks : ∀ located ∈ events, ∀ linkType, ∀ name ∈ names,
    located.event = .startLink linkType name → linkType = .inline
      ∧ ∃ range, destinationRange (located.source content) = some range ∧ ∃ newUrl, newUrl ∉ names
          ∧ ⟨located.start + range.1, located.start + range.2, newUrl⟩ ∈ edits

structure KeepsOutside (events : List Located) (edits : List (Edit Char)) (after : List Char) :
    Prop where
  descending : Splice.Descending content.length (Splice.lastFirst edits)
  spliced : after = Splice.splice content (Splice.lastFirst edits)
  inLinks : ∀ edit ∈ edits, ∃ located ∈ events, ∃ range ∈ linkRanges names content located,
    range.1 ≤ edit.start ∧ edit.stop ≤ range.2

/-- No NUL and no link to the page is left, and the text is otherwise unchanged. -/
def IsClean (shown : List Char) (events : List Located) (after : List Char) : Prop :=
  '\x00' ∉ after ∧ ∃ edits, LeavesNone names content shown (outsideBlocks false false events) edits
    ∧ KeepsOutside names content (outsideBlocks false false events) edits after

end Clean

/-! ### Sentinels -/

theorem stripPrefix_append (start text : List Char) :
    stripPrefix start (start ++ text) = some text := by
  have isPrefix : start.isPrefixOf (start ++ text) = true :=
    isPrefixOf_iff_prefix.2 (prefix_append _ _)
  rw [stripPrefix, if_pos isPrefix, drop_left]

theorem buildWikilinkReplacement_sentinel {mode : RewriteMode} {sentinelPrefix : List Char}
    (isPrefix : mode.sentinelPrefix = some sentinelPrefix) (text : List Char)
    (display : Option (List Char)) :
    buildWikilinkReplacement (sentinelPrefix ++ text) display = mode.shown text := by
  unfold buildWikilinkReplacement
  cases mode with
  | plainText =>
    obtain rfl := some.inj isPrefix
    rw [stripPrefix_append]
    rfl
  | unlink =>
    obtain rfl := some.inj isPrefix
    have notPlain : stripPrefix deletePlain (deleteUnlink ++ text) = none := rfl
    rw [notPlain, stripPrefix_append]
    rfl
  | none => exact nomatch isPrefix

theorem nul_mem_sentinelPrefix {mode : RewriteMode} {sentinelPrefix : List Char}
    (isPrefix : mode.sentinelPrefix = some sentinelPrefix) : '\x00' ∈ sentinelPrefix := by
  cases mode with
  | plainText | unlink =>
    obtain rfl := some.inj isPrefix
    decide
  | none => exact nomatch isPrefix

theorem nul_mem_shown_iff (mode : RewriteMode) (display : List Char) :
    '\x00' ∈ mode.shown display ↔ '\x00' ∈ display := by
  cases mode <;> simp [RewriteMode.shown]

theorem newTarget_deleteReplacements (names : List String) (sentinel target : List Char) :
    (deleteReplacements names sentinel).newTarget target
      = if target ∈ names.map String.toList then some sentinel else none := by
  unfold deleteReplacements Replacements.newTarget
  induction names with
  | nil => rfl
  | cons name names ih =>
    rw [map_cons, map_cons, find?_cons]
    by_cases same : name.toList = target
    · simp [same]
    · have different : ¬target = name.toList := fun equal => same equal.symm
      simp only [same, decide_false, ih, mem_cons, different, false_or]

section Rewriting

variable {names : List String} {mode : RewriteMode} {sentinelPrefix display content : List Char}
  {events : List Located} {located : Located} {edit : Edit Char}

abbrev visible (events : List Located) : List Located := outsideBlocks false false events

def InlineLinks (names : List String) (events : List Located) : Prop :=
  ∀ located ∈ events, ∀ linkType, ∀ name ∈ names.map String.toList,
    located.event = .startLink linkType name → linkType = .inline

def deleteEdits (names : List String) (sentinel content : List Char) (events : List Located) :
    List (Edit Char) :=
  collectEdits content (deleteReplacements names sentinel) (deleteReplacements names sentinel)
    events

theorem newTarget_eq_some_iff {sentinel target newTarget : List Char} :
    (deleteReplacements names sentinel).newTarget target = some newTarget
      ↔ target ∈ names.map String.toList ∧ sentinel = newTarget := by
  rw [newTarget_deleteReplacements]
  by_cases named : target ∈ names.map String.toList
  · rw [if_pos named, Option.some.injEq, and_iff_right named]
  · rw [if_neg named]
    exact iff_of_false nofun fun both => named both.1

theorem mem_edits_of_text (isPrefix : mode.sentinelPrefix = some sentinelPrefix)
    (isText : located.event = .text) :
    edit ∈ editsOf content (deleteReplacements names (sentinelPrefix ++ display))
        (deleteReplacements names (sentinelPrefix ++ display)) located ↔
      ∃ wikilink ∈ wikilinks (located.source content), wikilink.target ∈ names.map String.toList
          ∧ ⟨located.start + wikilink.start, located.start + wikilink.stop,
            mode.shown display⟩ = edit := by
  rw [mem_editsOf_text isText]
  constructor
  · intro ⟨wikilink, among, newTarget, replaced, isEdit⟩
    obtain ⟨named, rfl⟩ := newTarget_eq_some_iff.1 replaced
    rw [buildWikilinkReplacement_sentinel isPrefix] at isEdit
    exact ⟨wikilink, among, named, isEdit⟩
  · intro ⟨wikilink, among, named, isEdit⟩
    refine ⟨wikilink, among, _, newTarget_eq_some_iff.2 ⟨named, rfl⟩, ?_⟩
    rwa [buildWikilinkReplacement_sentinel isPrefix]

theorem mem_edits_of_link {sentinel : List Char} {linkType : LinkType} {destUrl : List Char}
    (isLink : located.event = .startLink linkType destUrl) :
    edit ∈ editsOf content (deleteReplacements names sentinel) (deleteReplacements names sentinel)
        located ↔
      destUrl ∈ names.map String.toList
        ∧ ∃ range, destinationRange (located.source content) = some range
          ∧ ⟨located.start + range.1, located.start + range.2, sentinel⟩ = edit := by
  rw [mem_editsOf_link isLink]
  constructor
  · intro ⟨newUrl, range, replaced, found, isEdit⟩
    obtain ⟨named, rfl⟩ := newTarget_eq_some_iff.1 replaced
    exact ⟨named, range, found, isEdit⟩
  · intro ⟨named, range, found, isEdit⟩
    exact ⟨_, range, newTarget_eq_some_iff.2 ⟨named, rfl⟩, found, isEdit⟩

theorem inlineOnly_deleteReplacements {sentinel : List Char} (inline : InlineLinks names events) :
    InlineOnly (deleteReplacements names sentinel) events := by
  intro located among linkType destUrl isLink replaced
  have ⟨newTarget, isTarget⟩ := Option.ne_none_iff_exists'.1 replaced
  exact inline located among linkType destUrl (newTarget_eq_some_iff.1 isTarget).1 isLink

/-- Where all links are inline, the rewriting replaces the ranges of its edits and nothing else. -/
theorem rewriteLinksInContent_delete (sentinel : List Char) {parse : List Char → List Located}
    (parsed : Parsed content (parse content)) (inline : InlineLinks names (visible (parse content))) :
    Splice.Descending content.length
        (Splice.lastFirst (deleteEdits names sentinel content (parse content)))
      ∧ rewriteLinksInContent content (deleteReplacements names sentinel)
          (deleteReplacements names sentinel) parse
        = Splice.splice content
          (Splice.lastFirst (deleteEdits names sentinel content (parse content))) := by
  have inlineOnly : InlineOnly (deleteReplacements names sentinel) (visible (parse content)) :=
    inlineOnly_deleteReplacements inline
  exact ⟨Splice.descending_lastFirst (pairwise_collectEdits parsed inlineOnly.edits)
    (within_of_collectEdits parsed), rewriteLinksInContent_eq parsed inlineOnly.edits⟩

theorem wikilink_of_mem_deleteEdits (isPrefix : mode.sentinelPrefix = some sentinelPrefix)
    (noLink : ∀ located ∈ visible events, ¬IsMarkdownLink (names.map String.toList) located)
    (member : edit ∈ deleteEdits names (sentinelPrefix ++ display) content events) :
    edit.replacement = mode.shown display ∧ ∃ located ∈ visible events,
      HasWikilink (names.map String.toList) content located
        ∧ ∃ range ∈ linkRanges (names.map String.toList) content located,
          range.1 ≤ edit.start ∧ edit.stop ≤ range.2 := by
  have ⟨located, among, ofLocated⟩ := mem_flatMap.1 member
  rcases event_of_mem_editsOf ofLocated with isText | ⟨linkType, destUrl, isLink⟩
  · obtain ⟨wikilink, inText, named, rfl⟩ := (mem_edits_of_text isPrefix isText).1 ofLocated
    refine ⟨rfl, located, among, ⟨isText, wikilink, inText, named⟩,
      (located.start + wikilink.start, located.start + wikilink.stop), ?_, le_rfl, le_rfl⟩
    unfold linkRanges
    rw [isText]
    exact mem_map_of_mem (mem_filter.2 ⟨inText, decide_eq_true named⟩)
  · have named := ((mem_edits_of_link isLink).1 ofLocated).1
    exact absurd ⟨linkType, destUrl, named, isLink⟩ (noLink located among)

/-- No Markdown link leads to the page, and the text shown has no NUL or replaces no wikilink. -/
theorem isClean_rewriteLinksInContent_iff {parse : List Char → List Located}
    (isPrefix : mode.sentinelPrefix = some sentinelPrefix)
    (parsed : Parsed content (parse content)) (noNul : '\x00' ∉ content) :
    IsClean (names.map String.toList) content (mode.shown display) (parse content)
        (rewriteLinksInContent content (deleteReplacements names (sentinelPrefix ++ display))
          (deleteReplacements names (sentinelPrefix ++ display)) parse) ↔
      (∀ located ∈ visible (parse content), ¬IsMarkdownLink (names.map String.toList) located)
        ∧ ('\x00' ∉ display ∨ ∀ located ∈ visible (parse content),
          ¬HasWikilink (names.map String.toList) content located) := by
  constructor
  · intro ⟨clean, edits, leavesNone, _⟩
    have inline : InlineLinks names (visible (parse content)) :=
      fun located among linkType name named isLink =>
        (leavesNone.markdownLinks located among linkType name named isLink).1
    have spliced := (rewriteLinksInContent_delete (sentinelPrefix ++ display) parsed inline).2
    -- what an edit writes is in the text
    have written : ∀ edit ∈ deleteEdits names (sentinelPrefix ++ display) content (parse content),
        '\x00' ∉ edit.replacement := by
      intro edit member inReplacement
      apply clean
      rw [spliced]
      exact Splice.mem_splice ((Splice.lastFirst_perm _).mem_iff.2 member) inReplacement
    constructor
    · intro located among ⟨linkType, name, named, isLink⟩
      have ⟨_, range, found, _⟩ :=
        leavesNone.markdownLinks located among linkType name named isLink
      apply written ⟨located.start + range.1, located.start + range.2, sentinelPrefix ++ display⟩
      · exact mem_flatMap.2
          ⟨located, among, (mem_edits_of_link isLink).2 ⟨named, range, found, rfl⟩⟩
      · exact mem_append_left _ (nul_mem_sentinelPrefix isPrefix)
    · by_cases nulShown : '\x00' ∈ display
      · refine Or.inr fun located among ⟨isText, wikilink, inText, named⟩ => ?_
        apply written ⟨located.start + wikilink.start, located.start + wikilink.stop,
          mode.shown display⟩
        · exact mem_flatMap.2 ⟨located, among,
            (mem_edits_of_text isPrefix isText).2 ⟨wikilink, inText, named, rfl⟩⟩
        · exact (nul_mem_shown_iff mode display).2 nulShown
      · exact Or.inl nulShown
  · intro ⟨noLink, nulFree⟩
    have inline : InlineLinks names (visible (parse content)) :=
      fun located among linkType name named isLink =>
        absurd ⟨linkType, name, named, isLink⟩ (noLink located among)
    have ⟨descending, spliced⟩ :=
      rewriteLinksInContent_delete (sentinelPrefix ++ display) parsed inline
    refine ⟨fun inAfter => ?_,
      deleteEdits names (sentinelPrefix ++ display) content (parse content), ⟨?_, ?_⟩,
      ⟨descending, spliced, ?_⟩⟩
    · rw [spliced] at inAfter
      rcases Splice.mem_of_splice inAfter with inContent | ⟨edit, member, inReplacement⟩
      · exact noNul inContent
      · have ⟨isShown, located, among, hasWikilink, _⟩ :=
          wikilink_of_mem_deleteEdits isPrefix noLink ((Splice.lastFirst_perm _).mem_iff.1 member)
        rw [isShown, nul_mem_shown_iff] at inReplacement
        rcases nulFree with notShown | noWikilink
        · exact notShown inReplacement
        · exact noWikilink located among hasWikilink
    · intro located among isText wikilink inText named
      exact mem_flatMap.2 ⟨located, among,
        (mem_edits_of_text isPrefix isText).2 ⟨wikilink, inText, named, rfl⟩⟩
    · intro located among linkType name named isLink
      exact absurd ⟨linkType, name, named, isLink⟩ (noLink located among)
    · intro edit member
      have ⟨_, located, among, _, inLink⟩ := wikilink_of_mem_deleteEdits isPrefix noLink member
      exact ⟨located, among, inLink⟩

end Rewriting

/-! ### Referring pages -/

/-- A page that refers to the deleted one, can be read, and is not protected. -/
structure Sources.Refers {Time Value : Type} (sources : Sources Time Value) (path : String)
    (target referring : VaultPath) (content : String) : Prop where
  listed : ∃ references, sources.backlinkPages target (stemOf target) = .ok references
    ∧ ∃ reference ∈ references, reference ≠ path ∧ sources.path reference = .ok referring
  readable : ∃ bytes, sources.readText referring = .ok (bytes, content)
  unprotected : sources.isProtectedContent content = false

def MutationPlan.contentAfter (plan : MutationPlan) (path : VaultPath) (content : String) :
    String :=
  ((plan.stagedWrites.find? fun write => write.path = path).map StagedWrite.content).getD content

section Plan

variable {Time Value : Type} {sources : Sources Time Value} {target referring : VaultPath}
  {path reference display content : String} {sentinel : List Char} {bytes : Bytes}

theorem stageReferring_eq (isPath : sources.path reference = .ok referring)
    (read : sources.readText referring = .ok (bytes, content))
    (unprotected : sources.isProtectedContent content = false) :
    sources.stageReferring target display sentinel reference
      = .ok (if sources.rewritten (namesIn target display referring) sentinel content = content
        then none
        else some (⟨referring, bytes,
            sources.rewritten (namesIn target display referring) sentinel content⟩,
          (namesIn target display referring).map fun name => ⟨reference, name, display⟩)) := by
  unfold Sources.stageReferring
  rw [Fallible.bind_of_eq_ok isPath, Fallible.bind_of_eq_ok read]
  dsimp only
  rw [unprotected, if_neg Bool.false_ne_true]
  split <;> rfl

theorem write_of_stageReferring {write : StagedWrite} {textEdits : List PlannedTextEdit}
    (staged : sources.stageReferring target display sentinel reference
      = .ok (some (write, textEdits))) :
    ∃ other, sources.readText write.path = .ok (write.expectedBytes, other)
      ∧ write.content = sources.rewritten (namesIn target display write.path) sentinel other := by
  unfold Sources.stageReferring at staged
  have ⟨page, isPath, rest⟩ := Fallible.of_bind_ok staged
  have ⟨⟨bytes, other⟩, read, rest⟩ := Fallible.of_bind_ok rest
  dsimp only at rest
  split at rest
  · exact nomatch rest
  · split at rest
    · exact nomatch rest
    · obtain ⟨rfl, _⟩ := Prod.mk.inj (some.inj (Except.ok.inj rest))
      exact ⟨other, read, rfl⟩

theorem staged_of_planPageDelete {mode : RewriteMode} {sentinelPrefix : List Char}
    {plan : MutationPlan} (isPrefix : mode.sentinelPrefix = some sentinelPrefix)
    (isTarget : sources.path path = .ok target) (read : sources.readBytes target = .ok bytes)
    (planned : sources.planPageDelete path mode = .ok plan) :
    ∃ references, sources.backlinkPages target (stemOf target) = .ok references
      ∧ ∃ staged, (references.filter (· ≠ path)).mapM (sources.stageReferring target
          (sources.displayText (stemOf target) bytes)
          (sentinelPrefix ++ (sources.displayText (stemOf target) bytes).toList)) = .ok staged
        ∧ plan.stagedWrites = (staged.reduceOption).map Prod.fst := by
  unfold Sources.planPageDelete at planned
  rw [Fallible.bind_of_eq_ok isTarget, Fallible.bind_of_eq_ok read, isPrefix] at planned
  have ⟨references, listed, rest⟩ := Fallible.of_bind_ok planned
  have ⟨staged, isStaged, rest⟩ := Fallible.of_bind_ok rest
  obtain rfl := Except.ok.inj rest
  exact ⟨references, listed, staged, isStaged, rfl⟩

theorem contentAfter_planPageDelete {mode : RewriteMode} {sentinelPrefix : List Char}
    {plan : MutationPlan} (isPrefix : mode.sentinelPrefix = some sentinelPrefix)
    (isTarget : sources.path path = .ok target) (read : sources.readBytes target = .ok bytes)
    (planned : sources.planPageDelete path mode = .ok plan)
    (refers : sources.Refers path target referring content) :
    plan.contentAfter referring content
      = sources.rewritten (namesIn target (sources.displayText (stemOf target) bytes) referring)
        (sentinelPrefix ++ (sources.displayText (stemOf target) bytes).toList) content := by
  have ⟨references, listed, staged, isStaged, writes⟩ :=
    staged_of_planPageDelete isPrefix isTarget read planned
  have ⟨others, listedToo, reference, among, notItself, isPath⟩ := refers.listed
  obtain rfl := Except.ok.inj (listed.symm.trans listedToo)
  have ⟨refBytes, readable⟩ := refers.readable
  have each := Fallible.forall₂_of_mapM_eq_ok isStaged
  unfold MutationPlan.contentAfter
  rw [writes]
  cases found : ((staged.reduceOption).map Prod.fst).find? fun write => write.path = referring with
  | none =>
    have ⟨result, inStaged, isResult⟩ := Fallible.exists_of_forall₂ each reference
      (mem_filter.2 ⟨among, decide_eq_true notItself⟩)
    rw [stageReferring_eq isPath readable refers.unprotected, Except.ok.injEq] at isResult
    by_cases same : sources.rewritten
        (namesIn target (sources.displayText (stemOf target) bytes) referring)
        (sentinelPrefix ++ (sources.displayText (stemOf target) bytes).toList) content = content
    · rw [same]
      rfl
    · -- a page that changes is staged
      rw [if_neg same] at isResult
      rw [← isResult] at inStaged
      have isWrite := mem_map_of_mem (f := Prod.fst) (reduceOption_mem_iff.2 inStaged)
      have missing := find?_eq_none.1 found _ isWrite
      exact absurd (decide_eq_true rfl) missing
  | some write =>
    have matched := find?_some found
    have samePath : write.path = referring := of_decide_eq_true matched
    obtain ⟨⟨write, textEdits⟩, inChanged, rfl⟩ := mem_map.1 (mem_of_find?_eq_some found)
    have inStaged : some (write, textEdits) ∈ staged := reduceOption_mem_iff.1 inChanged
    have ⟨_, _, isResult⟩ := Fallible.exists_of_forall₂ each.flip _ inStaged
    have ⟨other, readOther, isContent⟩ := write_of_stageReferring isResult
    dsimp only at samePath
    rw [samePath] at readOther isContent
    obtain ⟨_, rfl⟩ := Prod.mk.inj (Except.ok.inj (readable.symm.trans readOther))
    exact isContent

end Plan

/-- The text is clean exactly where no Markdown link leads to the page, and its title has no NUL
or replaces no wikilink. -/
theorem page_delete_clean_iff {Time Value : Type} (sources : Sources Time Value) (path : String)
    (mode : RewriteMode) (plan : MutationPlan) (target referring : VaultPath) (bytes : Bytes)
    (content : String)
    (parsed : ∀ text, Parsed text (sources.markdown text)) (rewrites : mode ≠ .none)
    (isTarget : sources.path path = .ok target) (read : sources.readBytes target = .ok bytes)
    (planned : sources.planPageDelete path mode = .ok plan)
    (refers : sources.Refers path target referring content) (noNul : '\x00' ∉ content.toList) :
    IsClean
        ((namesIn target (sources.displayText (stemOf target) bytes) referring).map String.toList)
        content.toList (mode.shown (sources.displayText (stemOf target) bytes).toList)
        (sources.markdown content.toList) (plan.contentAfter referring content).toList ↔
      (∀ located ∈ outsideBlocks false false (sources.markdown content.toList), ¬IsMarkdownLink
          ((namesIn target (sources.displayText (stemOf target) bytes) referring).map String.toList)
          located)
      ∧ ('\x00' ∉ (sources.displayText (stemOf target) bytes).toList
        ∨ ∀ located ∈ outsideBlocks false false (sources.markdown content.toList), ¬HasWikilink
            ((namesIn target (sources.displayText (stemOf target) bytes) referring).map
              String.toList)
            content.toList located) := by
  obtain ⟨sentinelPrefix, isPrefix⟩ : ∃ sentinelPrefix,
      mode.sentinelPrefix = some sentinelPrefix := by
    cases mode with
    | plainText | unlink => exact ⟨_, rfl⟩
    | none => exact absurd rfl rewrites
  rw [contentAfter_planPageDelete isPrefix isTarget read planned refers, Sources.rewritten,
    String.toList_ofList]
  exact isClean_rewriteLinksInContent_iff isPrefix (parsed content.toList) noNul

/-! ### One referring page -/

namespace DeleteSample

theorem isComponent_sample {name : String} (member : name ∈ ["a.md", "b.md"]) :
    IsComponent name := by
  rcases mem_pair.1 member with rfl | rfl <;>
    exact ⟨by decide, by decide, by decide, by decide⟩

def referring : VaultPath := ⟨["a.md"], by decide, fun _ member => isComponent_sample (by simp_all)⟩

def target : VaultPath := ⟨["b.md"], by decide, fun _ member => isComponent_sample (by simp_all)⟩

def files (content : String) : Tree where
  entries :=
    { rows := [⟨target, .file []⟩, ⟨referring, .file content.toUTF8.toList⟩]
      distinct := by
        show [target, referring].Nodup
        decide }
  closed := by
    intro entry among ancestor above
    rcases mem_pair.1 among with rfl | rfl <;> exact nomatch above

def sources (content : String) (events : List Located) : Sources Unit Unit where
  nfc := id
  files := files content
  backlinkPages := fun _ _ => .ok ["a.md"]
  frontmatter := fun _ =>
    ⟨.repeated 0, none, [], [], none, none, none, none, none, none, ⟨[], nodup_nil⟩⟩
  markdown := fun text => if text = content.toList then events else []

theorem parsed {content : String} {events : List Located} (isParsed : Parsed content.toList events)
    (text : List Char) : Parsed text ((sources content events).markdown text) := by
  show Parsed text (if text = content.toList then events else [])
  by_cases same : text = content.toList
  · rw [if_pos same, same]
    exact isParsed
  · rw [if_neg same]
    exact ⟨nofun, List.Pairwise.nil⟩

def wikilinkEvents : List Located := [⟨.other, 0, 9⟩, ⟨.text, 0, 9⟩, ⟨.other, 0, 9⟩]

def linkEvents : List Located :=
  [⟨.other, 0, 9⟩, ⟨.startLink .inline "b.md".toList, 0, 9⟩, ⟨.text, 1, 2⟩, ⟨.other, 0, 9⟩,
    ⟨.other, 0, 9⟩]

def wikilinked : Sources Unit Unit := sources "see [[b]]" wikilinkEvents

def linked : Sources Unit Unit := sources "[x](b.md)" linkEvents

def plan (before after : String) : MutationPlan where
  deletedFiles := ["b.md"]
  textEdits := [⟨"a.md", "b", "b"⟩, ⟨"a.md", "b.md", "b"⟩]
  indexEvents := [.remove target, .upsert referring]
  stagedWrites := [⟨referring, before.toUTF8.toList, after⟩]
  primaryIntents := [.delete target []]

end DeleteSample

open DeleteSample in
/-- A wikilink gives way to the stem of the page, which has no title. -/
theorem page_delete_clean_wikilink :
    wikilinked.planPageDelete "b.md" .plainText = .ok (plan "see [[b]]" "see b")
      ∧ IsClean ["b".toList, "b.md".toList] "see [[b]]".toList "b".toList wikilinkEvents
        "see b".toList := by
  have planned : wikilinked.planPageDelete "b.md" .plainText = .ok (plan "see [[b]]" "see b") := by
    decide +kernel
  have isParsed : Parsed "see [[b]]".toList wikilinkEvents :=
    ⟨by decide, by simp [wikilinkEvents, Separate]⟩
  have refers : wikilinked.Refers "b.md" target referring "see [[b]]" :=
    ⟨⟨_, rfl, "a.md", by decide, by decide, rfl⟩,
      ⟨"see [[b]]".toUTF8.toList, by decide +kernel⟩, rfl⟩
  refine ⟨planned, (page_delete_clean_iff wikilinked "b.md" .plainText _ target referring []
    "see [[b]]" (parsed isParsed) (by simp) rfl rfl planned refers (by decide)).2
    ⟨fun located among isLink => ?_, Or.inl (by decide)⟩⟩
  obtain rfl : located = ⟨.text, 0, 9⟩ := mem_singleton.1 among
  obtain ⟨_, _, _, isLink⟩ := isLink
  cases isLink

open DeleteSample in
/-- The destination of a Markdown link becomes the sentinel itself. -/
theorem page_delete_leaves_sentinel :
    linked.planPageDelete "b.md" .plainText = .ok (plan "[x](b.md)" "[x](\x00PLAIN:b)")
      ∧ linked.Refers "b.md" target referring "[x](b.md)"
      ∧ ¬IsClean ["b".toList, "b.md".toList] "[x](b.md)".toList "b".toList
        linkEvents "[x](\x00PLAIN:b)".toList :=
  ⟨by decide +kernel,
    ⟨⟨_, rfl, "a.md", by decide, by decide, rfl⟩,
      ⟨"[x](b.md)".toUTF8.toList, by decide +kernel⟩, rfl⟩,
    fun clean => clean.1 (by decide)⟩

end Clepsydra.Mutate
