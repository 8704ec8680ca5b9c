import Clepsydra.Library.Fallible

/-!
Owns: vault-relative paths. A path is its list of components; its text joins them
with `/`, and the order of paths is the order of their texts.
-/

namespace Clepsydra.Vault

open List String

structure IsComponent (text : String) : Prop where
  nonempty : text ≠ ""
  notCurrent : text ≠ "."
  notParent : text ≠ ".."
  noSeparator : '/' ∉ text.toList

structure VaultPath where
  components : List String
  nonempty : components ≠ []
  sound : ∀ component ∈ components, IsComponent component
deriving DecidableEq

namespace VaultPath

def single (component : String) (sound : IsComponent component) : VaultPath where
  components := [component]
  nonempty := cons_ne_nil component []
  sound := fun _ among => mem_singleton.1 among ▸ sound

/-! ### Text -/

def join (components : List String) : String :=
  String.ofList (['/'].intercalate (components.map String.toList))

def asStr (path : VaultPath) : String := join path.components

def pieces (text : String) : List String := (text.toList.splitOn '/').map String.ofList

theorem toList_join_cons {first : String} {rest : List String} (more : rest ≠ []) :
    (join (first :: rest)).toList = first.toList ++ '/' :: (join rest).toList := by
  unfold join
  rw [toList_ofList, toList_ofList]
  cases rest with
  | nil => exact absurd rfl more
  | cons second others => simp

theorem toList_join_append {upper lower : List String} (above : upper ≠ []) (below : lower ≠ []) :
    (join (upper ++ lower)).toList = (join upper).toList ++ '/' :: (join lower).toList := by
  induction upper with
  | nil => exact absurd rfl above
  | cons first rest ih =>
    rw [cons_append, toList_join_cons (by simp [below])]
    cases rest with
    | nil => simp [join]
    | cons second others =>
      have joined : (join (first :: second :: others)).toList
          = first.toList ++ '/' :: (join (second :: others)).toList :=
        toList_join_cons (by simp)
      rw [ih (by simp), joined]
      simp

theorem toList_join_concat {directories : List String} (name : String) (some : directories ≠ []) :
    (join (directories ++ [name])).toList = (join directories).toList ++ '/' :: name.toList := by
  rw [toList_join_append some (by simp)]
  simp [join]

theorem pieces_join {components : List String} (some : components ≠ [])
    (noSeparator : ∀ component ∈ components, '/' ∉ component.toList) :
    pieces (join components) = components := by
  have separated : ∀ characters ∈ components.map String.toList, '/' ∉ characters := by
    intro characters member
    have ⟨component, inList, same⟩ := mem_map.1 member
    rw [← same]
    exact noSeparator component inList
  unfold pieces join
  rw [toList_ofList, splitOn_intercalate '/' separated (by simpa using some),
    List.map_map]
  simp [Function.comp_def]

theorem pieces_asStr (path : VaultPath) : pieces path.asStr = path.components :=
  pieces_join path.nonempty fun component member => (path.sound component member).noSeparator

theorem asStr_injective : Function.Injective asStr := by
  intro left right same
  have components : left.components = right.components := by
    rw [← pieces_asStr left, ← pieces_asStr right, same]
  cases left
  cases right
  cases components
  rfl

/-- `as_str().cmp(…)`. -/
instance : LinearOrder VaultPath := LinearOrder.lift' asStr asStr_injective

/-! ### Construction -/

inductive PathError where
  | empty
  | absolute (raw : String)
  | traversal (raw : String)
  | backslash (raw : String)
deriving DecidableEq

theorem notMem_of_mem_splitOn {separator : Char} (text piece : List Char)
    (member : piece ∈ text.splitOn separator) : separator ∉ piece := by
  induction text generalizing piece with
  | nil =>
    simp only [splitOn_nil, mem_singleton] at member
    simp [member]
  | cons character rest ih =>
    rw [splitOn_cons_eq_if_modifyHead] at member
    split_ifs at member with isSeparator
    · rcases mem_cons.1 member with isEmpty | inRest
      · simp [isEmpty]
      · exact ih piece inRest
    · cases parts : rest.splitOn separator with
      | nil => exact absurd parts (splitOn_ne_nil _ _)
      | cons first others =>
        rw [parts, modifyHead_cons] at member
        rcases mem_cons.1 member with isFirst | inOthers
        · have below := ih first (by rw [parts]; exact mem_cons_self)
          rw [isFirst, mem_cons, not_or]
          refine ⟨fun same => ?_, below⟩
          simp [← same] at isSeparator
        · exact ih piece (by rw [parts]; exact mem_cons_of_mem _ inOthers)

private theorem isComponent_of_piece {text component : String}
    (parts : component ∈ (pieces text).filter fun piece => piece ≠ "" ∧ piece ≠ ".")
    (noParent : ".." ∉ pieces text) : IsComponent component := by
  have ⟨member, kept⟩ := mem_filter.1 parts
  have named : component ≠ "" ∧ component ≠ "." := by simpa using kept
  have ⟨characters, inText, same⟩ := mem_map.1 member
  refine ⟨named.1, named.2, ?_, ?_⟩
  · intro isParent
    exact noParent (isParent ▸ member)
  · rw [← same, toList_ofList]
    exact notMem_of_mem_splitOn _ _ inText

/-- `VaultPath::new`. -/
def new (nfc : String → String) (raw : String) : Except PathError VaultPath :=
  if raw = "" then .error .empty
  else if '\\' ∈ raw.toList then .error (.backslash raw)
  else if raw.toList.head? = some '/' then .error (.absolute raw)
  else if noParent : ".." ∈ pieces (nfc raw) then .error (.traversal raw)
  else
    let components := (pieces (nfc raw)).filter fun piece => piece ≠ "" ∧ piece ≠ "."
    if found : components = [] then .error .empty
    else .ok ⟨components, found, fun _ member => isComponent_of_piece member noParent⟩

theorem components_of_new {nfc : String → String} {raw : String} {path : VaultPath}
    (valid : new nfc raw = .ok path) :
    path.components = (pieces (nfc raw)).filter (fun piece => piece ≠ "" ∧ piece ≠ ".")
      ∧ ".." ∉ pieces (nfc raw) ∧ '\\' ∉ raw.toList := by
  unfold new at valid
  dsimp only at valid
  split_ifs at valid with isEmpty backslash absolute parent noComponents
  cases valid
  exact ⟨rfl, parent, backslash⟩

private theorem asStr_eq_of_head (path : VaultPath) : ∃ first rest, path.components = first :: rest
      ∧ path.asStr.toList = first.toList ++ (path.asStr.toList.drop first.toList.length) := by
  cases parts : path.components with
  | nil => exact absurd parts path.nonempty
  | cons first rest =>
    refine ⟨first, rest, rfl, ?_⟩
    unfold asStr join
    rw [parts, toList_ofList]
    cases rest with
    | nil | cons => simp

theorem new_asStr {nfc : String → String} {path : VaultPath} (normalized : nfc path.asStr = path.asStr)
    (noBackslash : '\\' ∉ path.asStr.toList) : new nfc path.asStr = .ok path := by
  have ⟨first, rest, parts, start⟩ := asStr_eq_of_head path
  have isComponent : IsComponent first := path.sound first (by rw [parts]; exact mem_cons_self)
  have head : path.asStr.toList.head? = first.toList.head? := by
    cases characters : first.toList with
    | nil => exact absurd (toList_inj.1 characters) isComponent.nonempty
    | cons character others =>
      rw [start, characters]
      rfl
  have notEmpty : path.asStr ≠ "" := by
    intro isEmpty
    rw [isEmpty] at head
    cases characters : first.toList with
    | nil => exact absurd (toList_inj.1 characters) isComponent.nonempty
    | cons character others =>
      rw [characters] at head
      simp at head
  have notAbsolute : path.asStr.toList.head? ≠ some '/' := by
    intro isAbsolute
    rw [isAbsolute] at head
    exact isComponent.noSeparator (mem_of_head? head.symm)
  have noParent : ".." ∉ pieces (nfc path.asStr) := by
    rw [normalized, pieces_asStr]
    intro member
    exact (path.sound _ member).notParent rfl
  have kept : (pieces (nfc path.asStr)).filter (fun piece => piece ≠ "" ∧ piece ≠ ".")
      = path.components := by
    rw [normalized, pieces_asStr, filter_eq_self]
    intro component member
    have sound := path.sound component member
    simp [sound.nonempty, sound.notCurrent]
  unfold new
  rw [if_neg notEmpty, if_neg noBackslash, if_neg notAbsolute, dif_neg noParent]
  simp only [kept, path.nonempty, dif_neg, not_false_eq_true]

/-! ### Ancestors -/

def take (path : VaultPath) (count : Nat) (some : 0 < count) : VaultPath where
  components := path.components.take count
  nonempty := by
    intro isEmpty
    rcases take_eq_nil_iff.1 isEmpty with none | noComponents
    · omega
    · exact path.nonempty noComponents
  sound := fun component member => path.sound component (mem_of_mem_take member)

def ancestors (path : VaultPath) : List VaultPath :=
  (List.range (path.components.length - 1)).map fun index =>
    path.take (index + 1) (Nat.succ_pos index)

def IsAncestor (ancestor path : VaultPath) : Prop :=
  ancestor.components <+: path.components ∧ ancestor ≠ path

theorem ext_components {left right : VaultPath} (same : left.components = right.components) :
    left = right := by
  cases left
  cases right
  cases same
  rfl

theorem mem_ancestors {ancestor path : VaultPath} :
    ancestor ∈ path.ancestors ↔ ancestor.IsAncestor path := by
  unfold ancestors
  rw [mem_map]
  constructor
  · intro taken
    have ⟨index, inRange, same⟩ := taken
    have short : index < path.components.length - 1 := mem_range.1 inRange
    rw [← same]
    refine ⟨List.take_prefix _ _, ?_⟩
    intro whole
    have lengths : (path.components.take (index + 1)).length = path.components.length :=
      congrArg (fun other : VaultPath => other.components.length) whole
    rw [length_take] at lengths
    omega
  · intro above
    have ⟨isPrefix, different⟩ := above
    have positive : 0 < ancestor.components.length := length_pos_iff.2 ancestor.nonempty
    have shorter : ancestor.components.length < path.components.length := by
      apply lt_of_le_of_ne isPrefix.length_le
      intro sameLength
      exact different (ext_components (isPrefix.eq_of_length sameLength))
    refine ⟨ancestor.components.length - 1, mem_range.2 (by omega), ?_⟩
    apply ext_components
    show path.components.take (ancestor.components.length - 1 + 1) = ancestor.components
    rw [Nat.sub_add_cancel positive]
    exact (prefix_iff_eq_take.1 isPrefix).symm

theorem pairwise_ancestors (path : VaultPath) :
    path.ancestors.Pairwise fun upper lower => upper ∈ lower.ancestors := by
  unfold ancestors
  rw [pairwise_map]
  apply pairwise_iff_getElem.2
  intro first second inFirst inSecond smaller
  rw [getElem_range, getElem_range]
  rw [length_range] at inSecond
  apply mem_ancestors.2
  constructor
  · show path.components.take (first + 1) <+: path.components.take (second + 1)
    exact take_prefix_take_left (by omega)
  · intro same
    have lengths : (path.components.take (first + 1)).length
        = (path.components.take (second + 1)).length :=
      congrArg (fun other : VaultPath => other.components.length) same
    rw [length_take, length_take] at lengths
    omega

theorem not_mem_ancestors_self (path : VaultPath) : path ∉ path.ancestors := by
  intro above
  exact (mem_ancestors.1 above).2 rfl

theorem ancestors_trans {upper middle lower : VaultPath} (above : upper ∈ middle.ancestors)
    (below : middle ∈ lower.ancestors) : upper ∈ lower.ancestors := by
  have first := mem_ancestors.1 above
  have second := mem_ancestors.1 below
  apply mem_ancestors.2
  refine ⟨first.1.trans second.1, ?_⟩
  intro same
  rw [same] at first
  have equal := first.1.eq_of_length (le_antisymm first.1.length_le second.1.length_le)
  exact first.2 (ext_components equal)

end VaultPath

end Clepsydra.Vault
