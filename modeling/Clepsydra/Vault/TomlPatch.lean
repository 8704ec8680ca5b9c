import Clepsydra.Vault.Frontmatter

/-!
Owns: surgical edits of the frontmatter: the document, the requests, and the page put together.

Proves: exactly where such a page is split again, and which edits give what was asked.
-/

namespace Clepsydra.Vault

open Library List
open Option (some.inj)

/-! ### The first closing fence -/

def HasFenceLine (text : List Char) : Prop := fenceLine <:+: '\n' :: text

instance (text : List Char) : Decidable (HasFenceLine text) :=
  inferInstanceAs (Decidable (fenceLine <:+: '\n' :: text))

def WholeLines (text : List Char) : Prop := text = [] ∨ ∃ lines, text = lines ++ ['\n']

def betweenFences (frontmatter body : List Char) : List Char :=
  "+++\n".toList ++ frontmatter ++ "+++\n".toList ++ body

theorem fenceLine_ne_nil : fenceLine ≠ [] := cons_ne_nil _ _

/-- The first line of an empty frontmatter is its opening fence. -/
theorem splitOnce_betweenFences_nil (body : List Char) :
    splitOnce ['\n'] ((betweenFences [] body).drop "+++".toList.length) =
      some ([], "+++".toList ++ '\n' :: body) := rfl

theorem splitFenced_betweenFences_nil {body : List Char} (clean : ¬HasFenceLine body) :
    splitFenced (betweenFences [] body) "+++".toList = .ok ([], body) := by
  have absent : splitOnce fenceLine ("+++".toList ++ '\n' :: body) = none := by
    rw [splitOnce_eq_none_iff fenceLine_ne_nil, fence_append_iff newline_fresh]
    exact clean
  unfold fenceLine at absent
  unfold splitFenced
  rw [if_pos (by simp [betweenFences]), splitOnce_betweenFences_nil]
  dsimp only
  rw [absent]
  simp

/-- A line of the body that begins with a fence is taken for the closing one. -/
theorem splitFenced_betweenFences_nil_of_fence {body : List Char} (fence : HasFenceLine body) :
    ∃ before shorter, splitFenced (betweenFences [] body) "+++".toList = .ok (before, shorter) ∧
      shorter.length < body.length := by
  have occurs : fenceLine <:+: "+++".toList ++ '\n' :: body :=
    (fence_append_iff newline_fresh _).2 fence
  cases found : splitOnce fenceLine ("+++".toList ++ '\n' :: body) with
  | none => exact absurd occurs ((splitOnce_eq_none_iff fenceLine_ne_nil).1 found)
  | some parts =>
    obtain ⟨before, after⟩ := parts
    have split := (append_of_splitOnce found).1
    have nonempty : before ≠ [] := by
      intro empty
      rw [empty] at split
      exact absurd (List.cons.inj split).1 (by decide)
    have counted := congrArg List.length split
    have fenceLength : fenceLine.length = 4 := by decide
    have positive : 0 < before.length := length_pos_iff.2 nonempty
    simp only [length_append, length_cons, String.length_toList, fenceLength] at counted
    have short : after.length < body.length := by
      have : "+++".length = 3 := by decide
      omega
    refine ⟨before ++ ['\n'], if ['\n'].isPrefixOf after then after.tail else after, ?_, ?_⟩
    · unfold splitFenced
      rw [if_pos (by simp [betweenFences]), splitOnce_betweenFences_nil]
      unfold fenceLine at found
      dsimp only
      rw [found]
    · split
      · rw [length_tail]
        omega
      · exact short

theorem betweenFences_lines (lines body : List Char) :
    betweenFences (lines ++ ['\n']) body = fenced lines body := rfl

/-- The parts are found again exactly when no line of the frontmatter but the first begins with a
fence and, where it is empty, no line of the body does. -/
theorem splitFenced_body_iff {frontmatter body : List Char} (whole : WholeLines frontmatter) :
    (∃ found, splitFenced (betweenFences frontmatter body) "+++".toList = .ok (found, body)) ↔
      ¬fenceLine <:+: frontmatter ∧ (frontmatter ≠ [] ∨ ¬HasFenceLine body) := by
  rcases whole with rfl | ⟨lines, rfl⟩
  · have none : ¬fenceLine <:+: [] := by decide
    constructor
    · rintro ⟨found, split⟩
      refine ⟨none, Or.inr fun fence => ?_⟩
      have ⟨before, shorter, other, short⟩ := splitFenced_betweenFences_nil_of_fence fence
      have same : shorter = body := congrArg Prod.snd (Except.ok.inj (other.symm.trans split))
      rw [same] at short
      omega
    · rintro ⟨-, nonempty | clean⟩
      · exact absurd rfl nonempty
      · exact ⟨[], splitFenced_betweenFences_nil clean⟩
  · rw [betweenFences_lines, fence_lines_iff]
    constructor
    · rintro ⟨found, split⟩
      refine ⟨fun broken => ?_, Or.inl (by simp)⟩
      have ⟨before, longer, other, long⟩ := splitFenced_of_broken broken body
      have same : longer = body := congrArg Prod.snd (Except.ok.inj (other.symm.trans split))
      rw [same] at long
      omega
    · rintro ⟨unbroken, -⟩
      exact ⟨_, splitFenced_of_unbroken unbroken body⟩

theorem frontmatter_of_splitFenced {frontmatter found body : List Char}
    (whole : WholeLines frontmatter)
    (split : splitFenced (betweenFences frontmatter body) "+++".toList = .ok (found, body)) :
    found = frontmatter := by
  have ⟨unbroken, clean⟩ := (splitFenced_body_iff whole).1 ⟨found, split⟩
  rcases whole with rfl | ⟨lines, rfl⟩
  · have clean := clean.resolve_left (fun nonempty => nonempty rfl)
    have empty := splitFenced_betweenFences_nil clean
    exact congrArg Prod.fst (Except.ok.inj (split.symm.trans empty))
  · rw [fence_lines_iff] at unbroken
    have lines := splitFenced_of_unbroken unbroken body
    rw [betweenFences_lines] at split
    exact congrArg Prod.fst (Except.ok.inj (split.symm.trans lines))

/-- A frontmatter without fences is found exactly when it is not empty or no line of the body
begins with one. -/
theorem splitFenced_finds_first_iff {frontmatter : List Char} (whole : WholeLines frontmatter)
    (clean : ¬HasFenceLine frontmatter) (body : List Char) :
    splitFenced (betweenFences frontmatter body) "+++".toList = .ok (frontmatter, body) ↔
      frontmatter ≠ [] ∨ ¬HasFenceLine body := by
  have unbroken : ¬fenceLine <:+: frontmatter := fun occurs =>
    clean (occurs.trans (suffix_cons _ _).isInfix)
  constructor
  · exact fun split => ((splitFenced_body_iff whole).1 ⟨_, split⟩).2
  · intro condition
    have ⟨found, split⟩ := (splitFenced_body_iff whole).2 ⟨unbroken, condition⟩
    rw [split, frontmatter_of_splitFenced whole split]

theorem splitFenced_finds_first_with_fence_below :
    splitFenced (betweenFences "id = 1\n".toList "text\n+++\nmore".toList) "+++".toList =
      .ok ("id = 1\n".toList, "text\n+++\nmore".toList) :=
  (@splitFenced_finds_first_iff "id = 1\n".toList (Or.inr ⟨"id = 1".toList, by decide⟩) (by decide)
    "text\n+++\nmore".toList).2 (Or.inl (by decide))

/-- With an empty frontmatter a later line of the body closes it. -/
theorem splitFenced_misses_empty : WholeLines [] ∧ ¬HasFenceLine [] ∧
      splitFenced (betweenFences [] "+++ x\n".toList) "+++".toList =
        .ok ("+++\n".toList, " x\n".toList) ∧
      splitFenced (betweenFences [] "+++ x\n".toList) "+++".toList ≠
        .ok ([], "+++ x\n".toList) := by
  refine ⟨Or.inl rfl, ?_, ?_, ?_⟩ <;> decide

/-! ### Values of requests -/

structure FiniteDouble where
  bits : UInt64
  finite : bits.toNat / 2 ^ 52 % 2 ^ 11 ≠ 2 ^ 11 - 1

/-- `serde_json::Number`: a natural number, a negative one or a finite double. -/
inductive SerdeNumber where
  | posInt (number : UInt64)
  | negInt (number : Int64)
  | float (double : FiniteDouble)

/-- `serde_json::Value`. -/
inductive JsonValue where
  | null
  | bool (flag : Bool)
  | number (number : SerdeNumber)
  | string (text : String)
  | array (items : List JsonValue)
  | object (entries : List (String × JsonValue))

def JsonValue.isNull : JsonValue → Bool
  | .null => true
  | _ => false

/-- `as f64` for a number from 2^63 on: 53 bits are kept, rounded to nearest with ties to even. -/
def bitsOfLarge (number : Nat) : UInt64 :=
  let kept := number / 2 ^ 11
  let lost := number % 2 ^ 11
  let rounded := if 2 ^ 10 < lost ∨ (lost = 2 ^ 10 ∧ kept % 2 = 1) then kept + 1 else kept
  -- a mantissa that overflows carries into the exponent
  UInt64.ofNat ((1023 + 63) * 2 ^ 52 + rounded - 2 ^ 52)

def SerdeNumber.toToml : SerdeNumber → TomlValue
  | .posInt number =>
    if number.toNat < 2 ^ 63 then .integer number.toNat else .float (bitsOfLarge number.toNat)
  | .negInt number => .integer number.toInt
  | .float double => .float double.bits

inductive ValueHint where
  | date
  | dateTime

inductive SpliceError where
  | legacyFrontmatter
  | noFrontmatter
  | toml
  | unrepresentableValue (key reason : String)

/-- `InlineTable::insert`: a key that is there keeps its place. -/
def TomlValue.setField (entries : List (String × TomlValue)) (key : String) (value : TomlValue) :
    List (String × TomlValue) :=
  if key ∈ entries.map Prod.fst then
    entries.map fun entry => if entry.1 = key then (key, value) else entry
  else entries ++ [(key, value)]

section Values

variable {Time : Type} (calendar : Calendar Time)

mutual

/-- `json_to_toml_value`. A hinted text that is no date-time stays a text. -/
def jsonToTomlValue (key : String) (hint : Option ValueHint) :
    JsonValue → Except SpliceError TomlValue
  | .null => .error (.unrepresentableValue key "TOML has no null")
  | .bool flag => .ok (.boolean flag)
  | .number number => .ok number.toToml
  | .string text =>
    match hint, calendar.parseDatetime text.toList with
    | some _, some datetime => .ok (.datetime datetime)
    | _, _ => .ok (.string text)
  | .array items => do
      let items ← jsonItems key hint items
      pure (.array items)
  | .object entries => do
      let entries ← jsonEntries key [] entries
      pure (.table entries)

def jsonItems (key : String) (hint : Option ValueHint) :
    List JsonValue → Except SpliceError (List TomlValue)
  | [] => .ok []
  | item :: rest => do
      let item ← jsonToTomlValue key hint item
      let rest ← jsonItems key hint rest
      pure (item :: rest)

def jsonEntries (key : String) (table : List (String × TomlValue)) :
    List (String × JsonValue) → Except SpliceError (List (String × TomlValue))
  | [] => .ok table
  | (name, value) :: rest => do
      let value ← jsonToTomlValue key none value
      jsonEntries key (TomlValue.setField table name value) rest

end

end Values

/-! ### Documents -/

structure Decor where
  lead : Option (List Char)
  trail : Option (List Char)

def Decor.default : Decor := ⟨none, none⟩

structure ArrayDecor where
  trailing : Option (List Char)
  items : List Decor

/-- `toml_edit::Value`. A value that was read keeps how it was written. -/
structure DocValue (Raw : Type) where
  content : TomlValue
  decor : Decor
  array : Option ArrayDecor
  written : Option Raw

/-- `toml_edit::Item`: a value, or a table or an array of tables with headers of its own. -/
inductive DocItem (Raw : Type) where
  | value (stored : DocValue Raw)
  | tables (content : TomlValue) (written : Raw)

def DocItem.content {Raw : Type} : DocItem Raw → TomlValue
  | .value stored => stored.content
  | .tables content _ => content

def DocItem.asValue {Raw : Type} : DocItem Raw → Option (DocValue Raw)
  | .value stored => some stored
  | .tables _ _ => none

structure DocEntry (Raw : Type) where
  key : String
  written : Option Raw
  item : DocItem Raw

/-- `DocumentMut`: the entries of the root table and the text after the last of them. -/
structure Document (Raw : Type) where
  entries : Table String (DocEntry Raw) DocEntry.key
  trailing : List Char

namespace Document

variable {Raw : Type}

def value (doc : Document Raw) (key : String) : Option TomlValue :=
  (doc.entries.get key).map fun entry => entry.item.content

/-- `doc.remove(key)`. -/
def remove (doc : Document Raw) (key : String) : Document Raw :=
  { doc with entries := doc.entries.erase key }

/-- `doc[key] = item`: a key that is there keeps its place and how it was written. -/
def assign (doc : Document Raw) (key : String) (item : DocItem Raw) : Document Raw := { doc with
    entries := (doc.entries.modify key (fun entry => { entry with item }) fun _ => rfl).insertOrIgnore
      ⟨key, none, item⟩ }

def getValue (doc : Document Raw) (key : String) : Option (DocValue Raw) :=
  (doc.entries.get key).bind fun entry => entry.item.asValue

end Document

/-- `toml_edit`: the parser, the printer and the text of the error for a date-time. -/
structure TomlEdit (Raw : Type) where
  fromStr : List Char → Option (Document Raw)
  display : Document Raw → List Char
  datetimeError : List Char → String

/-! ### Requests -/

/-- Keys to set, keys to remove and the moment that becomes `updated_at`. -/
structure FrontmatterEdits (Time : Type) where
  set : List (String × JsonValue × Option ValueHint)
  remove : List String
  updatedAt : Option Time

def hasComment (raw : Option (List Char)) : Bool := raw.any fun text => text.contains '#'

def DocValue.hasComments {Raw : Type} (stored : DocValue Raw) : Bool :=
  stored.array.any fun array =>
    hasComment array.trailing ||
      array.items.any fun decor => hasComment decor.lead || hasComment decor.trail

def commentReason : String := "array contains comments; edit this field manually to preserve them"

section Splice

variable {Time Raw : Type} (calendar : Calendar Time) (crate : TomlEdit Raw)

def Document.replace (doc : Document Raw) (key : String) (content : TomlValue) : Document Raw :=
  doc.assign key
    (.value ⟨content, ((doc.getValue key).map DocValue.decor).getD Decor.default, none, none⟩)

/-- One turn of the loop over the keys to set; `null` removes. -/
def setKey (doc : Document Raw) (request : String × JsonValue × Option ValueHint) :
    Except SpliceError (Document Raw) :=
  if request.2.1.isNull then .ok (doc.remove request.1)
  else
    match jsonToTomlValue calendar request.1 request.2.2 request.2.1 with
    | .error error => .error error
    | .ok content =>
      if (doc.getValue request.1).any DocValue.hasComments then
        .error (.unrepresentableValue request.1 commentReason)
      else .ok (doc.replace request.1 content)

def bumpUpdatedAt (doc : Document Raw) : Option Time → Except SpliceError (Document Raw)
  | none => .ok doc
  | some updatedAt =>
    match chronoToTomlDatetime calendar updatedAt with
    | some content => .ok (doc.replace "updated_at" content)
    | none =>
      .error (.unrepresentableValue "updated_at"
        (crate.datetimeError (calendar.toRfc3339Opts updatedAt)))

def applyEdits (doc : Document Raw) (edits : FrontmatterEdits Time) :
    Except SpliceError (Document Raw) := do
  let doc := edits.remove.foldl Document.remove doc
  let doc ← edits.set.foldlM (setKey calendar) doc
  bumpUpdatedAt calendar crate doc edits.updatedAt

/-- `splice_frontmatter`. -/
def spliceFrontmatter (raw : List Char) (edits : FrontmatterEdits Time) :
    Except SpliceError (List Char) :=
  if "---".toList.isPrefixOf raw then .error .legacyFrontmatter
  else if ¬"+++".toList.isPrefixOf raw then .error .noFrontmatter
  else
    match splitFenced raw "+++".toList with
    | .error _ => .error .noFrontmatter
    | .ok (toml, body) =>
      match crate.fromStr toml with
      | none => .error .toml
      | some doc => do
          let edited ← applyEdits calendar crate doc edits
          pure (betweenFences (crate.display edited) body)

end Splice

/-! ### What is asked for a key -/

section Asked

variable {Time : Type} (calendar : Calendar Time)

/-- The value a key is asked to hold; `none` for `null`. -/
def askedValue (request : String × JsonValue × Option ValueHint) : Option TomlValue :=
  (jsonToTomlValue calendar request.1 request.2.2 request.2.1).toOption

namespace FrontmatterEdits

def asks (edits : FrontmatterEdits Time) : List (String × Option TomlValue) :=
  edits.remove.map (fun key => (key, none)) ++
    (edits.set.map (fun request => (request.1, askedValue calendar request)) ++
      edits.updatedAt.toList.map fun updatedAt =>
        ("updated_at", chronoToTomlDatetime calendar updatedAt))

end FrontmatterEdits

def lastAsk (asks : List (String × Option TomlValue)) (key : String) : Option (Option TomlValue) :=
  (asks.reverse.find? fun ask => ask.1 = key).map Prod.snd

theorem lastAsk_concat (asks : List (String × Option TomlValue)) (ask : String × Option TomlValue)
    (key : String) :
    lastAsk (asks ++ [ask]) key = if ask.1 = key then some ask.2 else lastAsk asks key := by
  unfold lastAsk
  rw [reverse_append, reverse_singleton, singleton_append, find?_cons]
  by_cases same : ask.1 = key
  · simp [same]
  · simp [same]

theorem lastAsk_eq_none_iff {asks : List (String × Option TomlValue)} {key : String} :
    lastAsk asks key = none ↔ key ∉ asks.map Prod.fst := by
  rw [lastAsk, Option.map_eq_none_iff, find?_eq_none, mem_map]
  constructor
  · rintro unasked ⟨ask, member, same⟩
    exact unasked ask (mem_reverse.2 member) (decide_eq_true same)
  · intro absent ask member same
    exact absent ⟨ask, mem_reverse.1 member, of_decide_eq_true same⟩

end Asked

/-! ### One request -/

section Steps

variable {Time Raw : Type} {calendar : Calendar Time} {crate : TomlEdit Raw}

namespace Document

theorem get_remove (doc : Document Raw) (key other : String) :
    (doc.remove key).entries.get other = if other = key then none else doc.entries.get other :=
  Table.get_erase _ _ _

theorem get_replace (doc : Document Raw) (key other : String) (content : TomlValue) :
    ∃ decor written, (doc.replace key content).entries.get other =
      if other = key then some ⟨key, written, .value ⟨content, decor, none, none⟩⟩
      else doc.entries.get other := by
  refine ⟨((doc.getValue key).map DocValue.decor).getD Decor.default,
    (doc.entries.get key).bind DocEntry.written, ?_⟩
  unfold replace assign
  rw [Table.get_insertOrIgnore, Table.get_modify]
  by_cases same : other = key
  · rw [if_pos same, if_pos same, same]
    cases found : doc.entries.get key with
    | none => simp
    | some entry =>
      have sameKey : entry.key = key := Table.key_of_get found
      simp [sameKey]
  · rw [if_neg same, if_neg same, if_neg fun both => same both.1.symm]

end Document

def Holds (doc edited : Document Raw) (key : String) : Option (Option TomlValue) → Prop
  | none => edited.entries.get key = doc.entries.get key
  | some none => edited.entries.get key = none
  | some (some content) => ∃ decor written,
      edited.entries.get key = some ⟨key, written, .value ⟨content, decor, none, none⟩⟩

structure Follows (doc : Document Raw) (asks : List (String × Option TomlValue))
    (edited : Document Raw) : Prop where
  holds : ∀ key, Holds doc edited key (lastAsk asks key)
  trailing : edited.trailing = doc.trailing

theorem follows_nil (doc : Document Raw) : Follows doc [] doc := ⟨fun _ => rfl, rfl⟩

variable {doc edited : Document Raw} {asks : List (String × Option TomlValue)}
  (follows : Follows doc asks edited)

include follows

theorem Follows.remove (key : String) :
    Follows doc (asks ++ [(key, none)]) (edited.remove key) := by
  refine ⟨fun other => ?_, follows.trailing⟩
  rw [lastAsk_concat]
  by_cases same : key = other
  · rw [if_pos same]
    show (edited.remove key).entries.get other = none
    rw [Document.get_remove, if_pos same.symm]
  · have kept : (edited.remove key).entries.get other = edited.entries.get other := by
      rw [Document.get_remove, if_neg fun eq => same eq.symm]
    rw [if_neg same]
    have holds := follows.holds other
    unfold Holds at holds ⊢
    rwa [kept]

theorem Follows.replace (key : String) (content : TomlValue) :
    Follows doc (asks ++ [(key, some content)]) (edited.replace key content) := by
  refine ⟨fun other => ?_, follows.trailing⟩
  obtain ⟨decor, written, get⟩ := edited.get_replace key other content
  rw [lastAsk_concat]
  by_cases same : key = other
  · rw [if_pos same]
    rw [if_pos same.symm] at get
    exact ⟨decor, written, same ▸ get⟩
  · rw [if_neg same]
    rw [if_neg fun eq => same eq.symm] at get
    have holds := follows.holds other
    unfold Holds at holds ⊢
    rwa [get]

theorem Follows.removeAll (keys : List String) :
    Follows doc (asks ++ keys.map fun key => (key, none)) (keys.foldl Document.remove edited) := by
  induction keys generalizing asks edited with
  | nil => simpa using follows
  | cons key rest ih =>
    have next := ih (follows.remove key)
    rwa [append_assoc, singleton_append] at next

omit follows

theorem askedValue_of_isNull {request : String × JsonValue × Option ValueHint}
    (isNull : request.2.1.isNull = true) : askedValue calendar request = none := by
  have ⟨key, value, hint⟩ := request
  cases value with
  | null => rfl
  | _ => exact absurd isNull (by simp [JsonValue.isNull])

variable {next : Document Raw} (follows : Follows doc asks edited)

include follows

theorem Follows.setKey {request : String × JsonValue × Option ValueHint}
    (set : setKey calendar edited request = .ok next) :
    Follows doc (asks ++ [(request.1, askedValue calendar request)]) next ∧
      (request.2.1.isNull = false → (askedValue calendar request).isSome) := by
  unfold Vault.setKey at set
  by_cases isNull : request.2.1.isNull = true
  · rw [if_pos isNull] at set
    rw [← Except.ok.inj set, askedValue_of_isNull isNull]
    exact ⟨follows.remove _, fun notNull => absurd (isNull.symm.trans notNull) (by decide)⟩
  · rw [if_neg isNull] at set
    unfold askedValue
    cases converted : jsonToTomlValue calendar request.1 request.2.2 request.2.1 with
    | error error =>
      rw [converted] at set
      exact nomatch set
    | ok content =>
      rw [converted] at set
      dsimp only at set
      split at set
      · exact nomatch set
      · rw [← Except.ok.inj set]
        exact ⟨follows.replace _ _, fun _ => rfl⟩

theorem Follows.setAll {requests : List (String × JsonValue × Option ValueHint)}
    (set : requests.foldlM (Vault.setKey calendar) edited = .ok next) :
    Follows doc (asks ++ requests.map fun request => (request.1, askedValue calendar request)) next ∧
      ∀ request ∈ requests, request.2.1.isNull = false → (askedValue calendar request).isSome := by
  induction requests generalizing asks edited with
  | nil =>
    obtain rfl := Except.ok.inj set
    simpa using follows
  | cons request rest ih =>
    rw [foldlM_cons] at set
    have ⟨middle, first, later⟩ := Fallible.of_bind_ok set
    have ⟨here, valid⟩ := follows.setKey first
    have ⟨all, allValid⟩ := ih here later
    rw [append_assoc, singleton_append] at all
    refine ⟨all, fun other member => ?_⟩
    rcases mem_cons.1 member with rfl | inRest
    · exact valid
    · exact allValid other inRest

theorem Follows.bumpUpdatedAt {updatedAt : Option Time}
    (bumped : bumpUpdatedAt calendar crate edited updatedAt = .ok next) :
    Follows doc (asks ++ updatedAt.toList.map fun updatedAt =>
      ("updated_at", chronoToTomlDatetime calendar updatedAt)) next := by
  cases updatedAt with
  | none =>
    obtain rfl := Except.ok.inj bumped
    simpa using follows
  | some updatedAt =>
    unfold Vault.bumpUpdatedAt at bumped
    dsimp only at bumped
    cases written : chronoToTomlDatetime calendar updatedAt with
    | none =>
      rw [written] at bumped
      exact nomatch bumped
    | some content =>
      rw [written] at bumped
      rw [← Except.ok.inj bumped]
      simpa [written] using follows.replace "updated_at" content

omit follows

/-- Every key holds what was asked last for it, and every value could be converted. -/
theorem follows_applyEdits {edits : FrontmatterEdits Time}
    (applied : applyEdits calendar crate doc edits = .ok edited) :
    Follows doc (edits.asks calendar) edited ∧
      ∀ request ∈ edits.set, request.2.1.isNull = false → (askedValue calendar request).isSome := by
  unfold applyEdits at applied
  obtain ⟨middle, set, bumped⟩ := Fallible.of_bind_ok applied
  have removed := (follows_nil doc).removeAll edits.remove
  obtain ⟨follows, valid⟩ := removed.setAll set
  have all := follows.bumpUpdatedAt bumped
  refine ⟨?_, valid⟩
  rwa [nil_append, append_assoc] at all

theorem Follows.value (follows : Follows doc asks edited) (key : String) :
    edited.value key = (lastAsk asks key).getD (doc.value key) := by
  have holds := follows.holds key
  unfold Document.value
  cases asked : lastAsk asks key with
  | none =>
    rw [asked] at holds
    rw [show edited.entries.get key = _ from holds]
    rfl
  | some content =>
    rw [asked] at holds
    cases content with
    | none => rw [show edited.entries.get key = none from holds]; rfl
    | some content =>
      obtain ⟨decor, written, get⟩ := holds
      rw [get]
      rfl

end Steps

/-! ### Texts that are printed anew -/

section Printed

variable {Raw : Type}

def DocItem.madeTexts : DocItem Raw → List String
  | .value ⟨content, _, _, none⟩ => content.texts
  | _ => []

def Document.madeTexts (doc : Document Raw) : List String :=
  doc.entries.rows.flatMap fun entry => entry.item.madeTexts

theorem Document.mem_madeTexts {doc : Document Raw} {text : String} :
    text ∈ doc.madeTexts ↔ ∃ key, ∃ entry ∈ doc.entries.get key, text ∈ entry.item.madeTexts := by
  rw [madeTexts, mem_flatMap]
  constructor
  · exact fun ⟨entry, member, inside⟩ => ⟨entry.key, entry, Table.get_of_mem member, inside⟩
  · exact fun ⟨key, entry, found, inside⟩ => ⟨entry, Table.mem_of_get found, inside⟩

theorem Follows.madeTexts {doc edited : Document Raw} {asks : List (String × Option TomlValue)}
    (follows : Follows doc asks edited) (wasRead : doc.madeTexts = []) (text : String) :
    text ∈ edited.madeTexts ↔
      ∃ key content, lastAsk asks key = some (some content) ∧ text ∈ content.texts := by
  rw [Document.mem_madeTexts]
  constructor
  · rintro ⟨key, entry, found, inside⟩
    have holds := follows.holds key
    cases asked : lastAsk asks key with
    | none =>
      rw [asked] at holds
      rw [show edited.entries.get key = _ from holds] at found
      have old : text ∈ doc.madeTexts := Document.mem_madeTexts.2 ⟨key, entry, found, inside⟩
      rw [wasRead] at old
      exact nomatch old
    | some content =>
      rw [asked] at holds
      cases content with
      | none =>
        rw [show edited.entries.get key = none from holds] at found
        exact nomatch found
      | some content =>
        obtain ⟨decor, written, get⟩ := holds
        rw [get] at found
        obtain rfl := some.inj found
        exact ⟨key, content, asked, inside⟩
  · rintro ⟨key, content, asked, inside⟩
    have holds := follows.holds key
    rw [asked] at holds
    obtain ⟨decor, written, get⟩ := holds
    exact ⟨key, _, get, inside⟩

theorem Document.rows_eq_nil_iff {doc : Document Raw} :
    doc.entries.rows = [] ↔ ∀ key, doc.value key = none := by
  constructor
  · intro empty key
    unfold Document.value Table.get
    rw [empty]
    rfl
  · intro nothing
    cases rows : doc.entries.rows with
    | nil => rfl
    | cons entry rest =>
      have held := nothing entry.key
      rw [Document.value, Table.get_of_mem (rows ▸ mem_cons_self)] at held
      exact nomatch held

/-- A fence begins a line only inside a new text of several lines; and what is printed is read
back as the same values. -/
structure Reprinted (crate : TomlEdit Raw) (text : List Char) (doc edited : Document Raw) :
    Prop where
  wasRead : doc.madeTexts = []
  lines : WholeLines text → WholeLines (crate.display edited)
  empty : crate.display edited = [] ↔ edited.entries.rows = [] ∧ edited.trailing = []
  fence : ¬fenceLine <:+: text →
    (fenceLine <:+: crate.display edited ↔ ∃ made ∈ edited.madeTexts, Breaks made)
  reads : ∃ again, crate.fromStr (crate.display edited) = some again ∧
    ∀ key, again.value key = edited.value key

/-- Whole lines, and none of them but the first begins with a fence. -/
theorem text_of_splitFenced {raw text body : List Char}
    (split : splitFenced raw "+++".toList = .ok (text, body)) :
    WholeLines text ∧ ¬fenceLine <:+: text := by
  unfold splitFenced at split
  by_cases starts : "+++".toList.isPrefixOf raw = true
  · rw [if_pos starts] at split
    cases opened : splitOnce ['\n'] (raw.drop "+++".toList.length) with
    | none =>
      rw [opened] at split
      exact nomatch split
    | some parts =>
      rw [opened] at split
      dsimp only at split
      cases closed : splitOnce ('\n' :: "+++".toList) parts.2 with
      | none =>
        rw [closed] at split
        dsimp only at split
        split at split
        · obtain rfl : [] = text := congrArg Prod.fst (Except.ok.inj split)
          exact ⟨Or.inl rfl, by decide⟩
        · exact nomatch split
      | some inner =>
        rw [closed] at split
        obtain rfl : inner.1 ++ ['\n'] = text := congrArg Prod.fst (Except.ok.inj split)
        refine ⟨Or.inr ⟨inner.1, rfl⟩, ?_⟩
        rw [fence_lines_iff]
        exact (append_of_splitOnce closed).2 (cons_ne_nil _ _)
  · rw [if_neg starts] at split
    exact nomatch split

end Printed

/-! ### Edits that do what is asked -/

section Correct

variable {Time Raw : Type} {calendar : Calendar Time} {crate : TomlEdit Raw}

/-- A key is to be removed: it is listed so or set to `null`. -/
def FrontmatterEdits.Drops (edits : FrontmatterEdits Time) (key : String) : Prop :=
  key ∈ edits.remove ∨ ∃ request ∈ edits.set, request.1 = key ∧ request.2.1.isNull = true

def FrontmatterEdits.Names (edits : FrontmatterEdits Time) (key : String) : Prop :=
  key ∈ edits.remove ∨ key ∈ edits.set.map Prod.fst ∨
    (key = "updated_at" ∧ edits.updatedAt.isSome = true)

/-- Other keys hold what they held, those to be removed nothing. -/
structure EditedAsAsked (calendar : Calendar Time) (edits : FrontmatterEdits Time)
    (doc again : Document Raw) : Prop where
  kept : ∀ key, ¬edits.Names key → again.value key = doc.value key
  removed : ∀ key, edits.Drops key → again.value key = none
  set : ∀ request ∈ edits.set, ¬edits.Drops request.1 → ∃ content,
    jsonToTomlValue calendar request.1 request.2.2 request.2.1 = .ok content ∧
      again.value request.1 = some content

/-- The last request for a removed key is a removal, else it has the value of all of them. -/
structure FrontmatterEdits.Agree (calendar : Calendar Time) (edits : FrontmatterEdits Time) :
    Prop where
  removed : ∀ key, edits.Drops key → lastAsk (edits.asks calendar) key = some none
  set : ∀ request ∈ edits.set, ¬edits.Drops request.1 →
    lastAsk (edits.asks calendar) request.1 = some (askedValue calendar request)

def FrontmatterEdits.Unbroken (calendar : Calendar Time) (edits : FrontmatterEdits Time) : Prop :=
  ∀ key content, lastAsk (edits.asks calendar) key = some (some content) →
    ∀ text ∈ content.texts, ¬Breaks text

def FrontmatterEdits.Empties (calendar : Calendar Time) (edits : FrontmatterEdits Time)
    (doc : Document Raw) : Prop :=
  doc.trailing = [] ∧ ∀ key, (lastAsk (edits.asks calendar) key).getD (doc.value key) = none

variable {edits : FrontmatterEdits Time}

theorem mem_asks_iff {key : String} :
    key ∈ (edits.asks calendar).map Prod.fst ↔ edits.Names key := by
  unfold FrontmatterEdits.asks FrontmatterEdits.Names
  cases edits.updatedAt with
  | none => simp
  | some updatedAt => simp [eq_comm]

theorem names_of_drops {key : String} (drops : edits.Drops key) : edits.Names key := by
  rcases drops with listed | ⟨request, member, rfl, -⟩
  · exact Or.inl listed
  · exact Or.inr (Or.inl (mem_map_of_mem member))

theorem value_of_names {doc edited : Document Raw}
    (follows : Follows doc (edits.asks calendar) edited) {key : String} (names : edits.Names key) :
    lastAsk (edits.asks calendar) key = some (edited.value key) := by
  rw [follows.value key]
  cases asked : lastAsk (edits.asks calendar) key with
  | none => exact absurd (mem_asks_iff.2 names) (lastAsk_eq_none_iff.1 asked)
  | some content => rfl

theorem editedAsAsked_iff {doc edited again : Document Raw}
    (follows : Follows doc (edits.asks calendar) edited)
    (valid : ∀ request ∈ edits.set, request.2.1.isNull = false →
      (askedValue calendar request).isSome) (same : ∀ key, again.value key = edited.value key) :
    EditedAsAsked calendar edits doc again ↔ edits.Agree calendar := by
  have named : ∀ request ∈ edits.set, edits.Names request.1 := fun request member =>
    Or.inr (Or.inl (mem_map_of_mem member))
  constructor
  · intro asAsked
    refine ⟨fun key drops => ?_, fun request member stays => ?_⟩
    · rw [value_of_names follows (names_of_drops drops), ← same, asAsked.removed key drops]
    · have ⟨content, converted, held⟩ := asAsked.set request member stays
      rw [value_of_names follows (named request member), ← same, held, askedValue, converted]
      rfl
  · intro agree
    refine ⟨fun key unnamed => ?_, fun key drops => ?_, fun request member stays => ?_⟩
    · rw [same, follows.value, lastAsk_eq_none_iff.2 fun asked => unnamed (mem_asks_iff.1 asked)]
      rfl
    · have asked := agree.removed key drops
      rw [value_of_names follows (names_of_drops drops)] at asked
      rw [same, some.inj asked]
    · have notNull : request.2.1.isNull = false := by
        by_contra isNull
        exact stays (Or.inr ⟨request, member, rfl, by simpa using isNull⟩)
      have asked := agree.set request member stays
      rw [value_of_names follows (named request member)] at asked
      have held := some.inj asked
      have isValue := valid request member notNull
      unfold askedValue at held isValue
      cases converted : jsonToTomlValue calendar request.1 request.2.2 request.2.1 with
      | error error =>
        rw [converted] at isValue
        exact nomatch isValue
      | ok content =>
        rw [converted] at held
        exact ⟨content, rfl, by rw [same, held]; rfl⟩

/-- The page has the same body and the keys as asked exactly when the requests agree, no text
breaks, and the frontmatter is not emptied over a fence line. -/
theorem spliceFrontmatter_as_asked_iff {raw text body out : List Char} {doc : Document Raw}
    {edits : FrontmatterEdits Time}
    (split : splitFenced raw "+++".toList = .ok (text, body))
    (parsed : crate.fromStr text = some doc)
    (reprinted : ∀ edited, applyEdits calendar crate doc edits = .ok edited →
      Reprinted crate text doc edited)
    (spliced : spliceFrontmatter calendar crate raw edits = .ok out) :
    (∃ frontmatter again, splitFenced out "+++".toList = .ok (frontmatter, body) ∧
        crate.fromStr frontmatter = some again ∧ EditedAsAsked calendar edits doc again) ↔
      edits.Agree calendar ∧ edits.Unbroken calendar ∧
        ¬(edits.Empties calendar doc ∧ HasFenceLine body) := by
  obtain ⟨edited, applied, rfl⟩ : ∃ edited, applyEdits calendar crate doc edits = .ok edited ∧
      betweenFences (crate.display edited) body = out := by
    unfold spliceFrontmatter at spliced
    split at spliced
    · exact nomatch spliced
    · split at spliced
      · exact nomatch spliced
      · rw [split] at spliced
        dsimp only at spliced
        rw [parsed] at spliced
        have ⟨edited, applied, rest⟩ := Fallible.of_bind_ok spliced
        exact ⟨edited, applied, Except.ok.inj rest⟩
  have ⟨follows, valid⟩ := follows_applyEdits applied
  have printed := reprinted edited applied
  have ⟨wholeText, cleanText⟩ := text_of_splitFenced split
  have whole := printed.lines wholeText
  have unbroken : ¬fenceLine <:+: crate.display edited ↔ edits.Unbroken calendar := by
    rw [printed.fence cleanText]
    simp only [follows.madeTexts printed.wasRead, FrontmatterEdits.Unbroken]
    constructor
    · exact fun none key content asked made inside breaks =>
        none ⟨made, ⟨key, content, asked, inside⟩, breaks⟩
    · exact fun clean ⟨made, ⟨key, content, asked, inside⟩, breaks⟩ =>
        clean key content asked made inside breaks
  have empties : crate.display edited = [] ↔ edits.Empties calendar doc := by
    rw [printed.empty, Document.rows_eq_nil_iff, follows.trailing, and_comm]
    simp only [follows.value, FrontmatterEdits.Empties]
  have ⟨reread, reads, sameValues⟩ := printed.reads
  have splits := @splitFenced_body_iff (crate.display edited) body whole
  constructor
  · rintro ⟨frontmatter, again, found, reparsed, asAsked⟩
    have ⟨clean, nonempty⟩ := splits.1 ⟨frontmatter, found⟩
    obtain rfl := frontmatter_of_splitFenced whole found
    obtain rfl := some.inj (reads.symm.trans reparsed)
    refine ⟨(editedAsAsked_iff follows valid sameValues).1 asAsked, unbroken.1 clean, ?_⟩
    rintro ⟨emptied, fence⟩
    rcases nonempty with nonempty | noFence
    · exact nonempty (empties.2 emptied)
    · exact noFence fence
  · rintro ⟨agree, clean, notEmptied⟩
    have nonempty : crate.display edited ≠ [] ∨ ¬HasFenceLine body := by
      by_cases fence : HasFenceLine body
      · exact Or.inl fun isEmpty => notEmptied ⟨empties.1 isEmpty, fence⟩
      · exact Or.inr fence
    have ⟨frontmatter, found⟩ := splits.2 ⟨unbroken.2 clean, nonempty⟩
    obtain rfl := frontmatter_of_splitFenced whole found
    exact ⟨_, reread, found, reads, (editedAsAsked_iff follows valid sameValues).2 agree⟩

end Correct

/-! ### Three edits -/

def readEntry (key written : String) (content : TomlValue) : DocEntry (List Char) :=
  ⟨key, some key.toList, .value ⟨content, Decor.default, none, some written.toList⟩⟩

def displayEntry (entry : DocEntry (List Char)) : List Char :=
  let written :=
    match entry.item with
    | .value ⟨_, _, _, some written⟩ => written
    | .value ⟨content, _, _, none⟩ => sampleText content
    | .tables _ written => written
  entry.key.toList ++ " = ".toList ++ written ++ ['\n']

def displayDocument (doc : Document (List Char)) : List Char :=
  doc.entries.rows.flatMap displayEntry ++ doc.trailing

def readDoc : Document (List Char) where
  entries := ⟨[readEntry "id" "'x'" (.string "x"), readEntry "rating" "3" (.integer 3)], by decide⟩
  trailing := []

/-- A text of two lines is set, the rating removed and the time of the edit written. -/
def rereadDoc : Document (List Char) where
  entries := ⟨[readEntry "id" "'x'" (.string "x"),
    readEntry "note" "\"\"\"\ntwo\nlines\"\"\"" (.string "two\nlines"),
    readEntry "updated_at" "2026-01-01T00:00:00Z" (.datetime "2026-01-01T00:00:00Z")], by decide⟩
  trailing := []

def sampleEdit : TomlEdit (List Char) where
  fromStr text := [readDoc, rereadDoc].find? fun doc => displayDocument doc = text
  display := displayDocument
  datetimeError _ := "invalid datetime"

def sampleRaw : List Char := betweenFences (displayDocument readDoc) sampleBody

def noteEdits (note : String) : FrontmatterEdits Int where
  set := [("note", .string note, none)]
  remove := ["rating"]
  updatedAt := some 2026

def editedDoc : Document (List Char) where
  entries := ⟨[readEntry "id" "'x'" (.string "x"),
    ⟨"note", none, .value ⟨.string "two\nlines", Decor.default, none, none⟩⟩,
    ⟨"updated_at", none, .value ⟨.datetime "2026-01-01T00:00:00Z", Decor.default, none, none⟩⟩],
    by decide⟩
  trailing := []

theorem noteEdits_applied :
    applyEdits sampleCalendar sampleEdit readDoc (noteEdits "two\nlines") = .ok editedDoc := by
  rfl

theorem sampleEdit_rereads :
    sampleEdit.fromStr (sampleEdit.display editedDoc) = some rereadDoc := by
  rfl

theorem Document.value_eq_find {Raw : Type} (doc : Document Raw) (key : String) :
    doc.value key =
      ((doc.entries.rows.map fun entry => (entry.key, entry.item.content)).find? fun row =>
        row.1 = key).map Prod.snd := by
  rw [find?_map, Option.map_map]
  rfl

theorem editedDoc_value (key : String) : rereadDoc.value key = editedDoc.value key := by
  rw [Document.value_eq_find, Document.value_eq_find]
  rfl

theorem editedDoc_reprinted : Reprinted sampleEdit (displayDocument readDoc) readDoc editedDoc where
  wasRead := rfl
  lines _ := Or.inr ⟨(displayDocument editedDoc).dropLast, by decide⟩
  empty := by
    constructor
    · intro isEmpty
      exact absurd isEmpty (by decide)
    · rintro ⟨isEmpty, -⟩
      exact nomatch isEmpty
  fence _ := by decide
  reads := ⟨rereadDoc, sampleEdit_rereads, editedDoc_value⟩

theorem noteEdits_asks : (noteEdits "two\nlines").asks sampleCalendar = [("rating", none),
      ("note", some (.string "two\nlines")),
      ("updated_at", some (.datetime "2026-01-01T00:00:00Z"))] := by
  rfl

theorem noteEdits_lastAsk {key : String} {content : TomlValue}
    (asked : lastAsk ((noteEdits "two\nlines").asks sampleCalendar) key = some (some content)) :
    content = .string "two\nlines" ∨ content = .datetime "2026-01-01T00:00:00Z" := by
  have ⟨ask, found, same⟩ := Option.map_eq_some_iff.1 asked
  have member := mem_of_find?_eq_some found
  simp only [noteEdits_asks, mem_reverse, mem_cons, not_mem_nil, or_false] at member
  rcases member with rfl | rfl | rfl
  · exact nomatch same
  · exact Or.inl (some.inj same).symm
  · exact Or.inr (some.inj same).symm

/-- The body may have fences of its own, and a text that is set several lines. -/
theorem spliceFrontmatter_as_asked_note : ∃ frontmatter again,
      splitFenced (betweenFences (displayDocument editedDoc) sampleBody) "+++".toList =
        .ok (frontmatter, sampleBody) ∧ sampleEdit.fromStr frontmatter = some again ∧
      EditedAsAsked sampleCalendar (noteEdits "two\nlines") readDoc again := by
  have reprinted : ∀ edited,
      applyEdits sampleCalendar sampleEdit readDoc (noteEdits "two\nlines") = .ok edited →
      Reprinted sampleEdit (displayDocument readDoc) readDoc edited := by
    intro edited applied
    obtain rfl := Except.ok.inj (noteEdits_applied.symm.trans applied)
    exact editedDoc_reprinted
  apply (@spliceFrontmatter_as_asked_iff Int (List Char) sampleCalendar sampleEdit sampleRaw
    (displayDocument readDoc) sampleBody _ readDoc (noteEdits "two\nlines") (by decide)
    (by rfl) reprinted (by rfl)).2
  refine ⟨⟨fun key drops => ?_, fun request member _ => ?_⟩, fun key content asked => ?_, ?_⟩
  · rcases drops with listed | ⟨request, member, -, isNull⟩
    · rw [mem_singleton.1 listed]
      rfl
    · rw [mem_singleton.1 member] at isNull
      exact nomatch isNull
  · rw [mem_singleton.1 member]
    rfl
  · rcases noteEdits_lastAsk asked with rfl | rfl
    · decide
    · intro text member
      exact nomatch member
  · rintro ⟨⟨-, nothing⟩, -⟩
    exact nomatch nothing "id"

/-- A text with a fence line cuts the frontmatter short, and so does a body once it is empty. -/
theorem fence_in_value_breaks_splice : (∃ out cut longer,
      spliceFrontmatter sampleCalendar sampleEdit sampleRaw (noteEdits "a\n+++ b") = .ok out ∧
        splitFenced out "+++".toList = .ok (cut, longer) ∧ sampleEdit.fromStr cut = none ∧
        longer ≠ sampleBody) ∧
      ∃ out cut shorter,
        spliceFrontmatter sampleCalendar sampleEdit sampleRaw ⟨[], ["id", "rating"], none⟩ = .ok out ∧
          splitFenced out "+++".toList = .ok (cut, shorter) ∧ shorter ≠ sampleBody := by
  refine ⟨⟨_, _, _, rfl, rfl, rfl, ?_⟩, _, _, _, rfl, rfl, ?_⟩
  · decide
  · decide

end Clepsydra.Vault
