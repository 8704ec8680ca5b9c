import Clepsydra.Bases.Index

/-!
Owns: the renaming of a tag on one page: which requests are accepted, and what is stored.

Proves: the tags are those of all other spellings before, and the target. A spelling hidden behind
the source comes out.
-/

namespace Clepsydra.Mutate.TagRename

open Bases Vault List

/-! ### The request -/

/-- `validate_tag`. -/
def validateTag (tag : String) : Bool :=
  !(tag == "" || trim tag != tag || (stripStart "#" tag).isSome || tag.toList.any isControl
    || (tag.toList.splitOn '/').any fun segment => trim (String.ofList segment) == "")

def identity (tag : String) : String := asciiLowercase (trim tag)

structure Accepts (kind : Kind) (source target : String) (stored : List String) : Prop where
  validSource : validateTag source = true
  validTarget : validateTag target = true
  different : eqIgnoreAsciiCase source target = false
  isEditable : source ∈ editableTags kind stored
  mayEdit : kind.isComputedTag target = false

/-- The rewritten tags; `seen` says whether the target was listed. -/
def renameFrom (source target : String) (seen : Bool) : List String → List String
  | [] => []
  | tag :: rest =>
    let renamed := if tag = source then target else tag
    if eqIgnoreAsciiCase (trim renamed) target then
      if seen then renameFrom source target true rest
      else target :: renameFrom source target true rest
    else renamed :: renameFrom source target seen rest

/-- The loop of `prepare` over the stored tags of a page. -/
def renameTags (source target : String) (stored : List String) : List String :=
  renameFrom source target false stored

def identities (kind : Kind) (stored : List String) : Set String :=
  {found | ∃ tag ∈ editableTags kind stored, identity tag = found}

/-! ### Tags that are edited -/

theorem eqIgnoreAsciiCase_iff {left right : String} :
    eqIgnoreAsciiCase (trim left) (trim right) = true ↔ identity left = identity right := by
  rw [eqIgnoreAsciiCase, beq_iff_eq]
  rfl

variable {kind : Kind} {tag : String}

theorem isComputedTag_iff :
    kind.isComputedTag tag = true ↔ identity tag = asciiLowercase kind.computedTag := by
  rw [Kind.isComputedTag, eqIgnoreAsciiCase, beq_iff_eq]
  rfl

theorem isComputedTag_trim :
    kind.isComputedTag (trim tag) = kind.isComputedTag tag := by
  rw [Kind.isComputedTag, Kind.isComputedTag, trim_trim]

variable {stored : List String}

theorem mem_identities_iff {found : String} :
    found ∈ identities kind stored ↔
      (∃ tag ∈ stored, identity tag = found) ∧ found ≠ asciiLowercase kind.computedTag := by
  have run : ∀ (tags editable : List String),
      (∃ tag ∈ tags.foldl (keepTag kind) editable, identity tag = found) ↔
        (∃ tag ∈ editable, identity tag = found) ∨
          ((∃ tag ∈ tags, identity tag = found) ∧ found ≠ asciiLowercase kind.computedTag) := by
    intro tags
    induction tags with
    | nil => simp
    | cons tag rest ih =>
      intro editable
      have step : (∃ other ∈ keepTag kind editable tag, identity other = found) ↔
          (∃ other ∈ editable, identity other = found) ∨
            (identity tag = found ∧ found ≠ asciiLowercase kind.computedTag) := by
        unfold keepTag
        rw [isComputedTag_trim]
        by_cases computed : kind.isComputedTag tag = true
        · rw [computed, Bool.true_or, if_pos rfl]
          have isComputed := isComputedTag_iff.1 computed
          constructor
          · exact .inl
          · rintro (before | ⟨same, other⟩)
            · exact before
            · exact absurd (same.symm.trans isComputed) other
        · rw [Bool.eq_false_of_not_eq_true computed, Bool.false_or]
          have notComputed : identity tag ≠ asciiLowercase kind.computedTag :=
            fun same => computed (isComputedTag_iff.2 same)
          by_cases known : (editable.any fun seen => eqIgnoreAsciiCase (trim seen) (trim tag)) = true
          · rw [if_pos known]
            have ⟨seen, among, same⟩ := any_eq_true.1 known
            have sameIdentity := eqIgnoreAsciiCase_iff.1 same
            constructor
            · exact .inl
            · rintro (before | ⟨isFound, -⟩)
              · exact before
              · exact ⟨seen, among, sameIdentity.trans isFound⟩
          · rw [if_neg known]
            constructor
            · rintro ⟨other, among, isFound⟩
              rcases mem_append.1 among with before | last
              · exact .inl ⟨other, before, isFound⟩
              · rw [mem_singleton.1 last] at isFound
                exact .inr ⟨isFound, isFound ▸ notComputed⟩
            · rintro (⟨other, among, isFound⟩ | ⟨isFound, -⟩)
              · exact ⟨other, mem_append_left _ among, isFound⟩
              · exact ⟨tag, mem_append_right _ (mem_singleton_self tag), isFound⟩
      rw [foldl_cons, ih, step, exists_mem_cons_iff, or_and_right, or_assoc]
  show (∃ tag ∈ stored.foldl (keepTag kind) [], identity tag = found) ↔ _
  rw [run stored []]
  simp

theorem mem_of_mem_editableTags (member : tag ∈ editableTags kind stored) : tag ∈ stored := by
  have run : ∀ (tags editable : List String), tag ∈ tags.foldl (keepTag kind) editable →
      tag ∈ editable ∨ tag ∈ tags := by
    intro tags
    induction tags with
    | nil => exact fun _ among => .inl among
    | cons first rest ih =>
      intro editable among
      rw [foldl_cons] at among
      rw [mem_cons]
      rcases ih _ among with before | later
      · unfold keepTag at before
        split_ifs at before
        · exact .inl before
        · rcases mem_append.1 before with old | new
          · exact .inl old
          · exact .inr (.inl (mem_singleton.1 new))
      · exact .inr (.inr later)
  exact (run stored [] member).resolve_left not_mem_nil

/-! ### The rewritten list -/

/-- A tag of another spelling and another identity than the target, or the target. -/
theorem mem_renameFrom {source target : String} (solid : trim target = target) (seen : Bool) :
    tag ∈ renameFrom source target seen stored ↔
      (tag ∈ stored ∧ tag ≠ source ∧ identity tag ≠ identity target) ∨
        (tag = target ∧ seen = false ∧
          ∃ other ∈ stored, other = source ∨ identity other = identity target) := by
  have isTarget : ∀ renamed, eqIgnoreAsciiCase (trim renamed) target = true ↔
      identity renamed = identity target := by
    intro renamed
    rw [← eqIgnoreAsciiCase_iff, solid]
  induction stored generalizing seen with
  | nil => simp [renameFrom]
  | cons first rest ih =>
    have later : ∀ seen, tag ∈ renameFrom source target seen rest ↔ _ := ih
    rw [renameFrom]
    by_cases taken : first = source ∨ identity first = identity target
    · have sameTarget : eqIgnoreAsciiCase (trim (if first = source then target else first)) target
          = true := by
        rw [isTarget]
        by_cases isSource : first = source
        · rw [if_pos isSource]
        · rw [if_neg isSource]
          exact taken.resolve_left isSource
      have notKept : (tag ∈ first :: rest ∧ tag ≠ source ∧ identity tag ≠ identity target) ↔
          (tag ∈ rest ∧ tag ≠ source ∧ identity tag ≠ identity target) := by
        constructor
        · rintro ⟨among, other, apart⟩
          rcases mem_cons.1 among with rfl | later
          · rcases taken with isSource | same
            · exact absurd isSource other
            · exact absurd same apart
          · exact ⟨later, other, apart⟩
        · exact fun ⟨later, rest⟩ => ⟨mem_cons_of_mem _ later, rest⟩
      rw [if_pos sameTarget, notKept, exists_mem_cons_iff]
      cases seen with
      | true =>
        rw [if_pos rfl, later true]
        simp
      | false =>
        rw [if_neg Bool.false_ne_true, mem_cons, later true]
        constructor
        · rintro (isTarget | kept | ⟨-, none, -⟩)
          · exact .inr ⟨isTarget, rfl, .inl taken⟩
          · exact .inl kept
          · exact nomatch none
        · rintro (kept | ⟨isTarget, -, -⟩)
          · exact .inr (.inl kept)
          · exact .inl isTarget
    · rw [not_or] at taken
      have notTarget : ¬eqIgnoreAsciiCase (trim (if first = source then target else first)) target
          = true := by
        rw [if_neg taken.1, isTarget]
        exact taken.2
      rw [if_neg notTarget, if_neg taken.1, mem_cons, later seen, mem_cons,
        exists_mem_cons_iff, or_iff_right (not_or.2 taken), or_and_right, or_assoc]
      apply or_congr_left
      constructor
      · rintro rfl
        exact ⟨rfl, taken⟩
      · exact fun ⟨same, _⟩ => same

theorem trim_of_validateTag (valid : validateTag tag = true) : trim tag = tag := by
  unfold validateTag at valid
  simp only [Bool.not_eq_true', Bool.or_eq_false_iff, bne_eq_false_iff_eq] at valid
  exact valid.1.1.1.2

/-- The source's identity is replaced exactly where it has no other spelling. -/
theorem rename_moves_spelling {kind : Kind} {source target : String} {stored : List String}
    (accepted : Accepts kind source target stored) :
    identities kind (renameTags source target stored) =
        insert (identity target) (identities kind (stored.filter fun tag => tag ≠ source)) ∧
      (identities kind (renameTags source target stored) =
          insert (identity target) (identities kind stored \ {identity source}) ↔
        ∀ tag ∈ stored, identity tag = identity source → tag = source) := by
  have solidSource := trim_of_validateTag accepted.validSource
  have solidTarget := trim_of_validateTag accepted.validTarget
  have different : identity source ≠ identity target := by
    rw [← eqIgnoreAsciiCase_iff.ne, solidSource, solidTarget, accepted.different]
    exact Bool.false_ne_true
  have sourceEditable : identity source ≠ asciiLowercase kind.computedTag :=
    (mem_identities_iff.1 ⟨source, accepted.isEditable, rfl⟩).2
  have notComputed : identity target ≠ asciiLowercase kind.computedTag := by
    rw [← isComputedTag_iff.ne, accepted.mayEdit]
    exact Bool.false_ne_true
  have renamed : identities kind (renameTags source target stored) =
      insert (identity target) (identities kind (stored.filter fun tag => tag ≠ source)) := by
    ext found
    rw [Set.mem_insert_iff, mem_identities_iff, mem_identities_iff]
    constructor
    · rintro ⟨⟨tag, among, rfl⟩, apart⟩
      rcases (mem_renameFrom solidTarget false).1 among with ⟨before, other, -⟩ | ⟨rfl, -, -⟩
      · exact .inr ⟨⟨tag, mem_filter.2 ⟨before, by simpa using other⟩, rfl⟩, apart⟩
      · exact .inl rfl
    · rintro (rfl | ⟨⟨tag, among, rfl⟩, apart⟩)
      · have isStored := mem_of_mem_editableTags accepted.isEditable
        exact ⟨⟨target, (mem_renameFrom solidTarget false).2
          (.inr ⟨rfl, rfl, source, isStored, .inl rfl⟩), rfl⟩, notComputed⟩
      · have ⟨before, other⟩ := mem_filter.1 among
        have other : tag ≠ source := by simpa using other
        refine ⟨?_, apart⟩
        by_cases same : identity tag = identity target
        · exact ⟨target, (mem_renameFrom solidTarget false).2
            (.inr ⟨rfl, rfl, tag, before, .inr same⟩), same.symm⟩
        · exact ⟨tag, (mem_renameFrom solidTarget false).2 (.inl ⟨before, other, same⟩), rfl⟩
  refine ⟨renamed, ?_⟩
  rw [renamed]
  constructor
  · intro moved tag among same
    by_contra other
    have remains : identity source ∈
        insert (identity target) (identities kind (stored.filter fun tag => tag ≠ source)) := by
      rw [Set.mem_insert_iff, mem_identities_iff]
      exact .inr ⟨⟨tag, mem_filter.2 ⟨among, by simpa using other⟩, same⟩, sourceEditable⟩
    rw [moved, Set.mem_insert_iff] at remains
    rcases remains with isTarget | ⟨-, removed⟩
    · exact different isTarget
    · exact removed rfl
  · intro alone
    ext found
    rw [Set.mem_insert_iff, Set.mem_insert_iff, Set.mem_sdiff, mem_identities_iff, mem_identities_iff,
      Set.mem_singleton_iff]
    apply or_congr_right
    constructor
    · rintro ⟨⟨tag, among, rfl⟩, apart⟩
      have ⟨before, other⟩ := mem_filter.1 among
      have other : tag ≠ source := by simpa using other
      exact ⟨⟨⟨tag, before, rfl⟩, apart⟩, fun same => other (alone tag before same)⟩
    · rintro ⟨⟨⟨tag, before, rfl⟩, apart⟩, removed⟩
      have other : tag ≠ source := fun same => removed (congrArg identity same)
      exact ⟨⟨tag, mem_filter.2 ⟨before, by simpa using other⟩, rfl⟩, apart⟩

/-- A page that is tagged `Draft` and `draft` is still tagged `draft` once `Draft` is renamed. -/
theorem hidden_spelling_remains : Accepts .note "Draft" "Idea" ["Draft", "draft"] ∧
      identities .note (renameTags "Draft" "Idea" ["Draft", "draft"]) ≠
        insert (identity "Idea") (identities .note ["Draft", "draft"] \ {identity "Draft"}) := by
  refine ⟨⟨by decide, by decide, by decide, by decide,
    by decide⟩, ?_⟩
  intro moved
  have remains : "draft" ∈ identities .note (renameTags "Draft" "Idea" ["Draft", "draft"]) :=
    ⟨"draft", by decide, by decide⟩
  rw [moved, Set.mem_insert_iff] at remains
  rcases remains with isTarget | ⟨-, removed⟩
  · exact absurd isTarget (by decide)
  · exact removed (by decide : "draft" = identity "Draft")

/-- A spelling of its own is renamed with its identity. -/
theorem rename_moves_spelling_draft :
    identities .note (renameTags "draft" "Idea" ["draft", "later"]) =
      insert (identity "Idea") (identities .note ["draft", "later"] \ {identity "draft"}) := by
  have accepted : Accepts .note "draft" "Idea" ["draft", "later"] :=
    ⟨by decide, by decide, by decide, by decide, by decide⟩
  exact (rename_moves_spelling accepted).2.2 (by decide)

end Clepsydra.Mutate.TagRename
