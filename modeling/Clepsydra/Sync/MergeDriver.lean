import Clepsydra.Vault.PageMeta

/-!
Owns: the field-wise merge of two edits of one page's frontmatter.

Proves: both devices get the same fields, and one that a side left alone is the other's, but for the
timestamps.
-/

namespace Clepsydra.Sync

open Library Vault List Option

/-! ### The merge -/

section Merge

variable {Time Value : Type}

/-- `scalar3`: the side that changed, unless both did. -/
def scalar3 {T : Type} [BEq T] (base : Option T) (ours theirs : T) : Option T :=
  if ours == theirs then some ours
  else
    match base with
    | some value =>
      if value == ours then some theirs
      else if value == theirs then some ours
      else none
    | none => none

def removed (base ours theirs : List String) : List String :=
  base.filter fun value => !ours.contains value || !theirs.contains value

/-- `set3`: survivors in our order, then their additions. -/
def set3 (base ours theirs : List String) : List String :=
  let keep := fun value => !(removed base ours theirs).contains value
  theirs.foldl (fun out value => if keep value && !out.contains value then out ++ [value] else out)
    (ours.filter keep)

/-- A key that a side lacks is `none` there. -/
def mergeKey [BEq Value] (base ours theirs : ExtraMap Value) (out : ExtraMap Value) (key : String) :
    Option (ExtraMap Value) :=
  (scalar3 (some (base.value key)) (ours.value key) (theirs.value key)).map fun merged =>
    match merged with
    | some value => out.insert key value
    | none => out

def mergeExtras [BEq Value] (base : Option (ExtraMap Value)) (ours theirs : ExtraMap Value) :
    Option (ExtraMap Value) :=
  let keys := ours.keys ++ theirs.keys.filter fun key => !ours.keys.contains key
  keys.foldlM (mergeKey (base.getD Table.empty) ours theirs) Table.empty

variable [LinearOrder Time]

def maxTime : Option Time → Option Time → Option Time
  | some first, some second => some (max first second)
  | first, second => first.or second

def minTime : Option Time → Option Time → Option Time
  | some first, some second => some (min first second)
  | first, second => first.or second

/-- `merge_meta`: `none` when both sides changed a field to different values. -/
def mergeMeta [BEq Value] (base : Option (Vault.PageMeta Time Value))
    (ours theirs : Vault.PageMeta Time Value) : Option (Vault.PageMeta Time Value) := do
  let title ← scalar3 (base.map fun page => page.title) ours.title theirs.title
  let kind ← scalar3 (base.map fun page => page.kind) ours.kind theirs.kind
  let project ← scalar3 (base.map fun page => page.project) ours.project theirs.project
  let readonly ← scalar3 (base.map fun page => page.readonly) ours.readonly theirs.readonly
  let encryption ← scalar3 (base.map fun page => page.encryption) ours.encryption theirs.encryption
  let tags := set3 ((base.map fun page => page.tags).getD []) ours.tags theirs.tags
  let aliases := set3 ((base.map fun page => page.aliases).getD []) ours.aliases theirs.aliases
  let extra ← mergeExtras (base.map fun page => page.extra) ours.extra theirs.extra
  return { ours with
    title, kind, project, readonly, encryption, tags, aliases, extra
    createdAt := minTime ours.createdAt theirs.createdAt
    updatedAt := maxTime ours.updatedAt theirs.updatedAt }

end Merge

/-! ### One value -/

/-- Equal as the merge compares, or the same. -/
def Same {T : Type} [BEq T] (first second : T) : Prop := first = second ∨ (first == second) = true

instance partialEquivOption {T : Type} [BEq T] [PartialEquivBEq T] : PartialEquivBEq (Option T) where
  symm := by
    intro first second equal
    cases first with
    | none =>
      cases second with
      | none => rfl
      | some value => cases equal
    | some value =>
      cases second with
      | none => cases equal
      | some other => exact @PartialEquivBEq.symm T _ _ _ _ equal
  trans := by
    intro first second third equal again
    cases first with
    | none =>
      cases second with
      | none => exact again
      | some value => cases equal
    | some value =>
      cases second with
      | none => cases equal
      | some other =>
        cases third with
        | none => cases again
        | some last => exact @PartialEquivBEq.trans T _ _ _ _ _ equal again

section Scalars

variable {T : Type} [BEq T]

theorem Same.eq [LawfulBEq T] {first second : T} (same : Same first second) : first = second :=
  same.elim id eq_of_beq

variable [PartialEquivBEq T] {base : Option T} {ours theirs merged swapped : T}

theorem scalar3_eq_none_comm :
    scalar3 base ours theirs = none ↔ scalar3 base theirs ours = none := by
  unfold scalar3
  rw [BEq.comm (a := theirs) (b := ours)]
  by_cases equal : (ours == theirs) = true
  · simp [equal]
  · simp only [equal]
    cases base with
    | none => simp
    | some value =>
      simp only
      split_ifs <;> simp

theorem scalar3_same (isMerged : scalar3 base ours theirs = some merged)
    (isSwapped : scalar3 base theirs ours = some swapped) : Same merged swapped := by
  unfold scalar3 at isMerged isSwapped
  rw [BEq.comm (a := theirs) (b := ours)] at isSwapped
  by_cases equal : (ours == theirs) = true
  · rw [if_pos equal, some.injEq] at isMerged isSwapped
    rw [← isMerged, ← isSwapped]
    exact .inr equal
  · rw [if_neg equal] at isMerged isSwapped
    cases base with
    | none => cases isMerged
    | some value =>
      simp only at isMerged isSwapped
      by_cases isOurs : (value == ours) = true
      · have notTheirs : ¬(value == theirs) = true := by
          intro isTheirs
          exact equal (PartialEquivBEq.trans (PartialEquivBEq.symm isOurs) isTheirs)
        rw [if_pos isOurs, some.injEq] at isMerged
        rw [if_neg notTheirs, if_pos isOurs, some.injEq] at isSwapped
        exact .inl (isMerged.symm.trans isSwapped)
      · rw [if_neg isOurs] at isMerged isSwapped
        split_ifs at isMerged isSwapped with isTheirs
        exact .inl (some.inj (isMerged.symm.trans isSwapped))

theorem scalar3_unchanged {value : T} (unchanged : Same ours value)
    (isMerged : scalar3 (some value) ours theirs = some merged) :
    Same merged theirs := by
  unfold scalar3 at isMerged
  by_cases equal : (ours == theirs) = true
  · rw [if_pos equal, some.injEq] at isMerged
    rw [← isMerged]
    exact .inr equal
  · rw [if_neg equal] at isMerged
    simp only at isMerged
    by_cases isOurs : (value == ours) = true
    · rw [if_pos isOurs, some.injEq] at isMerged
      exact .inl isMerged.symm
    · rw [if_neg isOurs] at isMerged
      rcases unchanged with isValue | isEqual
      · rw [← isValue, if_neg equal] at isMerged
        cases isMerged
      · exact absurd (PartialEquivBEq.symm isEqual) isOurs

end Scalars

/-! ### Sets -/

variable {value : String} {theirs : List String}

theorem mem_foldl_additions {keep : String → Bool} {out : List String} : value ∈ theirs.foldl
        (fun out value => if keep value && !out.contains value then out ++ [value] else out) out
      ↔ value ∈ out ∨ (value ∈ theirs ∧ keep value = true) := by
  induction theirs generalizing out with
  | nil => simp
  | cons first rest ih =>
    rw [foldl_cons, ih]
    by_cases adds : (keep first && !out.contains first) = true
    · rw [if_pos adds]
      rw [Bool.and_eq_true] at adds
      simp only [mem_append, mem_cons, not_mem_nil, or_false]
      constructor
      · rintro ((old | rfl) | later)
        · exact .inl old
        · exact .inr ⟨.inl rfl, adds.1⟩
        · exact .inr ⟨.inr later.1, later.2⟩
      · rintro (old | ⟨rfl | later, keeps⟩)
        · exact .inl (.inl old)
        · exact .inl (.inr rfl)
        · exact .inr ⟨later, keeps⟩
    · rw [if_neg adds]
      simp only [Bool.and_eq_true, Bool.not_eq_true', contains_eq_mem,
        decide_eq_false_iff_not, not_and, not_not] at adds
      simp only [mem_cons]
      constructor
      · rintro (old | later)
        · exact .inl old
        · exact .inr ⟨.inr later.1, later.2⟩
      · rintro (old | ⟨rfl | later, keeps⟩)
        · exact .inl old
        · exact .inl (adds keeps)
        · exact .inr ⟨later, keeps⟩

theorem mem_set3 {base ours : List String} : value ∈ set3 base ours theirs
      ↔ (value ∈ ours ∨ value ∈ theirs) ∧ (value ∈ base → value ∈ ours ∧ value ∈ theirs) := by
  unfold set3
  rw [mem_foldl_additions]
  simp only [removed, mem_filter, contains_eq_mem, Bool.not_eq_true',
    decide_eq_false_iff_not, Bool.or_eq_true, not_and, not_or, not_not]
  tauto

theorem set3_comm {base ours : List String} :
    value ∈ set3 base ours theirs ↔ value ∈ set3 base theirs ours := by
  rw [mem_set3, mem_set3, or_comm, and_comm (a := value ∈ ours)]

theorem set3_unchanged {base ours : List String} (unchanged : ∀ value, value ∈ ours ↔ value ∈ base) :
    value ∈ set3 base ours theirs ↔ value ∈ theirs := by
  rw [mem_set3, unchanged]
  tauto

/-! ### Extra fields -/

section Extras

variable {Value : Type} [BEq Value]

def selects (base ours theirs : ExtraMap Value) (key : String) : Option (Option Value) :=
  scalar3 (some (base.value key)) (ours.value key) (theirs.value key)

variable {ours theirs : ExtraMap Value}

theorem foldlM_mergeKey {base : ExtraMap Value} {keys : List String} (distinct : keys.Nodup)
    {out merged : ExtraMap Value} (fresh : ∀ key ∈ keys, out.value key = none)
    (isMerged : keys.foldlM (mergeKey base ours theirs) out = some merged) :
    ∀ key, (key ∈ keys → selects base ours theirs key = some (merged.value key))
      ∧ (key ∉ keys → merged.value key = out.value key) := by
  induction keys generalizing out with
  | nil =>
    rw [foldlM_nil] at isMerged
    cases isMerged
    exact fun key => ⟨fun member => (nomatch member), fun _ => rfl⟩
  | cons first rest ih =>
    rw [foldlM_cons] at isMerged
    have ⟨next, isNext, isMerged⟩ := bind_eq_some_iff.1 isMerged
    have ⟨selected, isSelected, isOut⟩ := map_eq_some_iff.1 isNext
    have ⟨absent, distinctRest⟩ := nodup_cons.1 distinct
    have nextValue : ∀ key, next.value key = if key = first then selected else out.value key := by
      intro key
      rw [← isOut]
      cases selected with
      | some value => exact ExtraMap.value_insert out first key value
      | none =>
        by_cases isFirst : key = first
        · rw [if_pos isFirst, isFirst]
          exact fresh first mem_cons_self
        · rw [if_neg isFirst]
    have freshRest : ∀ key ∈ rest, next.value key = none := by
      intro key member
      have other : key ≠ first := fun same => absent (same ▸ member)
      rw [nextValue, if_neg other]
      exact fresh key (mem_cons_of_mem _ member)
    have later := ih distinctRest freshRest isMerged
    intro key
    constructor
    · intro member
      rcases mem_cons.1 member with isFirst | inRest
      · rw [isFirst, (later first).2 absent, nextValue, if_pos rfl]
        exact isSelected
      · exact (later key).1 inRest
    · intro missing
      rw [mem_cons, not_or] at missing
      rw [(later key).2 missing.2, nextValue, if_neg missing.1]

theorem foldlM_mergeKey_eq_none {base : ExtraMap Value} {keys : List String} {out : ExtraMap Value} :
    keys.foldlM (mergeKey base ours theirs) out = none
      ↔ ∃ key ∈ keys, selects base ours theirs key = none := by
  induction keys generalizing out with
  | nil => simp
  | cons first rest ih =>
    rw [foldlM_cons]
    cases selected : selects base ours theirs first with
    | none =>
      have fails : mergeKey base ours theirs out first = none := map_eq_none_iff.2 selected
      rw [fails]
      simp [selected]
    | some value =>
      obtain ⟨next, isNext⟩ : ∃ next, mergeKey base ours theirs out first = some next :=
        ⟨_, map_eq_some_iff.2 ⟨value, selected, rfl⟩⟩
      rw [isNext, bind_eq_bind, bind_some, ih]
      simp [selected]

theorem selects_absent {base : ExtraMap Value} {key : String}
    (absent : key ∉ ours.keys ++ theirs.keys.filter fun key => !ours.keys.contains key) :
    selects base ours theirs key = some none := by
  have notOurs : key ∉ ours.keys := fun member => absent (mem_append_left _ member)
  have notTheirs : key ∉ theirs.keys := by
    intro member
    apply absent
    apply mem_append_right
    rw [mem_filter]
    exact ⟨member, by simpa using notOurs⟩
  unfold selects
  rw [ExtraMap.value_eq_none_iff.2 notOurs, ExtraMap.value_eq_none_iff.2 notTheirs]
  rfl

theorem mergeExtras_value {base : Option (ExtraMap Value)} {merged : ExtraMap Value}
    (isMerged : mergeExtras base ours theirs = some merged) (key : String) :
    selects (base.getD Table.empty) ours theirs key = some (merged.value key) := by
  have distinct : (ours.keys ++ theirs.keys.filter fun key => !ours.keys.contains key).Nodup := by
    refine ours.distinct.append (theirs.distinct.filter _) fun key inOurs inTheirs => ?_
    have isOurs : key ∈ ours.keys := inOurs
    rw [mem_filter] at inTheirs
    simp [isOurs] at inTheirs
  have values := foldlM_mergeKey distinct (fun _ _ => ExtraMap.value_empty _) isMerged key
  by_cases member : key ∈ ours.keys ++ theirs.keys.filter fun key => !ours.keys.contains key
  · exact values.1 member
  · rw [selects_absent member, values.2 member, ExtraMap.value_empty]

theorem mergeExtras_eq_none {base : Option (ExtraMap Value)} : mergeExtras base ours theirs = none
      ↔ ∃ key, selects (base.getD Table.empty) ours theirs key = none := by
  unfold mergeExtras
  rw [foldlM_mergeKey_eq_none]
  constructor
  · rintro ⟨key, _, fails⟩
    exact ⟨key, fails⟩
  · rintro ⟨key, fails⟩
    refine ⟨key, ?_, fails⟩
    by_contra absent
    rw [selects_absent absent] at fails
    cases fails

end Extras

/-! ### The whole frontmatter -/

section Meta

variable {Time Value : Type} [LinearOrder Time] [BEq Value]

theorem maxTime_comm (first second : Option Time) : maxTime first second = maxTime second first := by
  cases first with
  | none => cases second <;> rfl
  | some value =>
    cases second with
    | none => rfl
    | some other => exact congrArg some (max_comm value other)

theorem minTime_comm (first second : Option Time) : minTime first second = minTime second first := by
  cases first with
  | none => cases second <;> rfl
  | some value =>
    cases second with
    | none => rfl
    | some other => exact congrArg some (min_comm value other)

structure Merges (base : Option (Vault.PageMeta Time Value)) (ours theirs merged :
    Vault.PageMeta Time Value) : Prop where
  title : scalar3 (base.map fun page => page.title) ours.title theirs.title = some merged.title
  kind : scalar3 (base.map fun page => page.kind) ours.kind theirs.kind = some merged.kind
  project :
    scalar3 (base.map fun page => page.project) ours.project theirs.project = some merged.project
  readonly :
    scalar3 (base.map fun page => page.readonly) ours.readonly theirs.readonly = some merged.readonly
  encryption : scalar3 (base.map fun page => page.encryption) ours.encryption theirs.encryption
    = some merged.encryption
  tags : merged.tags = set3 ((base.map fun page => page.tags).getD []) ours.tags theirs.tags
  aliases :
    merged.aliases = set3 ((base.map fun page => page.aliases).getD []) ours.aliases theirs.aliases
  createdAt : merged.createdAt = minTime ours.createdAt theirs.createdAt
  updatedAt : merged.updatedAt = maxTime ours.updatedAt theirs.updatedAt
  extra : mergeExtras (base.map fun page => page.extra) ours.extra theirs.extra = some merged.extra

variable {base : Option (Vault.PageMeta Time Value)} {ours theirs : Vault.PageMeta Time Value}

theorem merges_of_mergeMeta {merged : Vault.PageMeta Time Value}
    (isMerged : mergeMeta base ours theirs = some merged) : Merges base ours theirs merged := by
  unfold mergeMeta at isMerged
  have ⟨title, isTitle, isMerged⟩ := bind_eq_some_iff.1 isMerged
  have ⟨kind, isKind, isMerged⟩ := bind_eq_some_iff.1 isMerged
  have ⟨project, isProject, isMerged⟩ := bind_eq_some_iff.1 isMerged
  have ⟨readonly, isReadonly, isMerged⟩ := bind_eq_some_iff.1 isMerged
  have ⟨encryption, isEncryption, isMerged⟩ := bind_eq_some_iff.1 isMerged
  have ⟨extra, isExtra, isMerged⟩ := bind_eq_some_iff.1 isMerged
  cases isMerged
  exact ⟨isTitle, isKind, isProject, isReadonly, isEncryption, rfl, rfl, rfl, rfl, isExtra⟩

theorem mergeMeta_eq_none : mergeMeta base ours theirs = none
      ↔ scalar3 (base.map fun page => page.title) ours.title theirs.title = none
        ∨ scalar3 (base.map fun page => page.kind) ours.kind theirs.kind = none
        ∨ scalar3 (base.map fun page => page.project) ours.project theirs.project = none
        ∨ scalar3 (base.map fun page => page.readonly) ours.readonly theirs.readonly = none
        ∨ scalar3 (base.map fun page => page.encryption) ours.encryption theirs.encryption = none
        ∨ mergeExtras (base.map fun page => page.extra) ours.extra theirs.extra = none := by
  unfold mergeMeta
  cases scalar3 (base.map fun page => page.title) ours.title theirs.title with
  | none => simp
  | some title =>
  cases scalar3 (base.map fun page => page.kind) ours.kind theirs.kind with
  | none => simp
  | some kind =>
  cases scalar3 (base.map fun page => page.project) ours.project theirs.project with
  | none => simp
  | some project =>
  cases scalar3 (base.map fun page => page.readonly) ours.readonly theirs.readonly with
  | none => simp
  | some readonly =>
  cases scalar3 (base.map fun page => page.encryption) ours.encryption theirs.encryption with
  | none => simp
  | some encryption =>
  cases mergeExtras (base.map fun page => page.extra) ours.extra theirs.extra with
  | none => simp
  | some extra => simp

structure Agree (first second : Vault.PageMeta Time Value) : Prop where
  title : first.title = second.title
  kind : first.kind = second.kind
  project : first.project = second.project
  readonly : first.readonly = second.readonly
  encryption : first.encryption = second.encryption
  createdAt : first.createdAt = second.createdAt
  updatedAt : first.updatedAt = second.updatedAt
  extra : ∀ key, Same (first.extra.value key) (second.extra.value key)
  tags : ∀ tag, tag ∈ first.tags ↔ tag ∈ second.tags
  aliases : ∀ name, name ∈ first.aliases ↔ name ∈ second.aliases

/-- A field that we left as in the base is as they have it. -/
structure TakesTheirs (base : Option (Vault.PageMeta Time Value))
    (ours theirs merged : Vault.PageMeta Time Value) : Prop where
  title : base.map (fun page => page.title) = some ours.title → merged.title = theirs.title
  kind : base.map (fun page => page.kind) = some ours.kind → merged.kind = theirs.kind
  project : base.map (fun page => page.project) = some ours.project →
    merged.project = theirs.project
  readonly : base.map (fun page => page.readonly) = some ours.readonly →
    merged.readonly = theirs.readonly
  encryption : base.map (fun page => page.encryption) = some ours.encryption →
    merged.encryption = theirs.encryption
  tags : (∀ tag, tag ∈ ours.tags ↔ tag ∈ (base.map fun page => page.tags).getD []) →
    ∀ tag, tag ∈ merged.tags ↔ tag ∈ theirs.tags
  aliases : (∀ name, name ∈ ours.aliases ↔ name ∈ (base.map fun page => page.aliases).getD []) →
    ∀ name, name ∈ merged.aliases ↔ name ∈ theirs.aliases
  extra : ∀ key, Same (ours.extra.value key)
      (ExtraMap.value ((base.map fun page => page.extra).getD Table.empty) key) →
    Same (merged.extra.value key) (theirs.extra.value key)
  createdAt : merged.createdAt = minTime ours.createdAt theirs.createdAt
  updatedAt : merged.updatedAt = maxTime ours.updatedAt theirs.updatedAt

variable [PartialEquivBEq Value]

theorem mergeExtras_comm_none {base : Option (ExtraMap Value)} {ours theirs : ExtraMap Value} :
    mergeExtras base ours theirs = none ↔ mergeExtras base theirs ours = none := by
  rw [mergeExtras_eq_none, mergeExtras_eq_none]
  exact exists_congr fun key => scalar3_eq_none_comm

theorem agree_of_merges {first second : Vault.PageMeta Time Value}
    (merges : Merges base ours theirs first) (swapped : Merges base theirs ours second) :
    Agree first second where
  title := (scalar3_same merges.title swapped.title).eq
  kind := (scalar3_same merges.kind swapped.kind).eq
  project := (scalar3_same merges.project swapped.project).eq
  readonly := (scalar3_same merges.readonly swapped.readonly).eq
  encryption := (scalar3_same merges.encryption swapped.encryption).eq
  createdAt := by rw [merges.createdAt, swapped.createdAt, minTime_comm]
  updatedAt := by rw [merges.updatedAt, swapped.updatedAt, maxTime_comm]
  extra := fun key =>
    scalar3_same (mergeExtras_value merges.extra key) (mergeExtras_value swapped.extra key)
  tags := fun tag => by rw [merges.tags, swapped.tags, set3_comm]
  aliases := fun name => by rw [merges.aliases, swapped.aliases, set3_comm]

theorem takes_scalar {T : Type} [BEq T] [LawfulBEq T] {base : Option T} {ours theirs merged : T}
    (isMerged : scalar3 base ours theirs = some merged) (unchanged : base = some ours) :
    merged = theirs := by
  rw [unchanged] at isMerged
  exact (scalar3_unchanged (.inl rfl) isMerged).eq

theorem takesTheirs_of_merges {merged : Vault.PageMeta Time Value}
    (merges : Merges base ours theirs merged) :
    TakesTheirs base ours theirs merged where
  title := takes_scalar merges.title
  kind := takes_scalar merges.kind
  project := takes_scalar merges.project
  readonly := takes_scalar merges.readonly
  encryption := takes_scalar merges.encryption
  tags := fun unchanged tag => by rw [merges.tags, set3_unchanged unchanged]
  aliases := fun unchanged name => by rw [merges.aliases, set3_unchanged unchanged]
  extra := fun key unchanged => scalar3_unchanged unchanged (mergeExtras_value merges.extra key)
  createdAt := merges.createdAt
  updatedAt := merges.updatedAt

/-- Both directions fail together and agree, and a field one side left alone is the other's. -/
theorem mergeMeta_symmetric (base : Option (Vault.PageMeta Time Value))
    (ours theirs : Vault.PageMeta Time Value) :
    (mergeMeta base ours theirs = none ↔ mergeMeta base theirs ours = none)
      ∧ (∀ first second, mergeMeta base ours theirs = some first →
        mergeMeta base theirs ours = some second → Agree first second)
      ∧ ∀ merged, mergeMeta base ours theirs = some merged →
        TakesTheirs base ours theirs merged := by
  refine ⟨?_, fun first second isFirst isSecond => ?_, fun merged isMerged => ?_⟩
  · rw [mergeMeta_eq_none, mergeMeta_eq_none]
    exact or_congr scalar3_eq_none_comm (or_congr scalar3_eq_none_comm
      (or_congr scalar3_eq_none_comm (or_congr scalar3_eq_none_comm
        (or_congr scalar3_eq_none_comm mergeExtras_comm_none))))
  · exact agree_of_merges (merges_of_mergeMeta isFirst) (merges_of_mergeMeta isSecond)
  · exact takesTheirs_of_merges (merges_of_mergeMeta isMerged)

end Meta

def stampedPage (createdAt : Nat) : Vault.PageMeta Nat String where
  id := .repeated 0
  title := none
  tags := []
  aliases := []
  kind := none
  project := none
  createdAt := some createdAt
  updatedAt := none
  encryption := none
  readonly := none
  extra := Table.empty

theorem mergeMeta_symmetric_stamped :
    (mergeMeta (some (stampedPage 5)) (stampedPage 5) (stampedPage 7)).isSome = true
      ∧ ∀ merged, mergeMeta (some (stampedPage 5)) (stampedPage 5) (stampedPage 7) = some merged →
        TakesTheirs (some (stampedPage 5)) (stampedPage 5) (stampedPage 7) merged :=
  ⟨by decide +kernel, (mergeMeta_symmetric (some (stampedPage 5)) (stampedPage 5)
    (stampedPage 7)).2.2⟩

/-- We left the creation stamp alone, and still ours is taken: it is the earlier one. -/
theorem later_creation_not_taken :
    ¬∀ merged, mergeMeta (some (stampedPage 5)) (stampedPage 5) (stampedPage 7) = some merged →
      merged.createdAt = (stampedPage 7).createdAt := by
  have merges : ((mergeMeta (some (stampedPage 5)) (stampedPage 5) (stampedPage 7)).map
      fun merged => merged.createdAt) = some (some 5) := by decide
  have ⟨merged, isMerged, isCreated⟩ := map_eq_some_iff.1 merges
  intro takes
  have taken := takes merged isMerged
  rw [isCreated] at taken
  revert taken
  decide

end Clepsydra.Sync
