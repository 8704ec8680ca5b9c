import Clepsydra.Library.Nesting
import Clepsydra.Library.OrderedMap

/-!
Owns: the blocks of a page, and the pass that gives each its parent and its place.

Proves: the parent is the nearest earlier shallower block, and the place counts its siblings before.
-/

namespace Clepsydra.Vault.Blocks

open Library Library.Nesting List

/-! ### Blocks -/

inductive BlockType where
  | paragraph
  | listItem
  | heading
  | code
  | blockquote
deriving DecidableEq

inductive CheckboxState where
  | todo
  | done
  | cancelled

structure Span where
  start : Nat
  stop : Nat

structure Block where
  blockType : BlockType
  content : List Char
  blockId : Option (List Char)
  properties : OrderedMap (List Char) (List Char)
  checkbox : Option CheckboxState
  depth : Nat
  parentIndex : Option Nat
  orderIndex : Nat
  span : Span

/-! ### The pass -/

/-- `usize::MAX`. -/
def usizeMax : Nat := 2 ^ 64 - 1

/-- A slice of blocks: its length is a `usize`. -/
abbrev BlockSlice := { blocks : List Block // blocks.length ≤ usizeMax }

def noParent : Nat := usizeMax

structure TreeState where
  stack : List (Nat × Nat)
  siblingCounter : OrderedMap Nat Nat

def assignStep (state : TreeState) (index : Nat) (block : Block) : Block × TreeState :=
  let stack := popFrom block.depth state.stack
  let parentIndex := stack.head?.map Prod.snd
  let parentKey := parentIndex.getD noParent
  let order := (state.siblingCounter.get parentKey).getD 0
  ({ block with parentIndex, orderIndex := order },
    ⟨(block.depth, index) :: stack, state.siblingCounter.insert parentKey (order + 1)⟩)

def assignFrom (state : TreeState) (index : Nat) : List Block → List Block
  | [] => []
  | block :: rest =>
    (assignStep state index block).1 :: assignFrom (assignStep state index block).2 (index + 1) rest

def assignParentsAndOrder (blocks : BlockSlice) : List Block := assignFrom ⟨[], .empty⟩ 0 blocks.val

/-! ### What the pass is for -/

/-- Under the nearest shallower block, after the ones that share its parent. -/
structure Placed (earlier : List Block) (block : Block) : Prop where
  parent : IsNearestBelow (earlier.map Block.depth) block.depth block.parentIndex
  order : block.orderIndex = earlier.countP fun other => other.parentIndex = block.parentIndex

def IsTree (blocks : List Block) : Prop :=
  ∀ before block after, blocks = before ++ block :: after → Placed before block

def IsParent (blocks : List Block) (parent child : Nat) : Prop :=
  ∃ block, blocks[child]? = some block ∧ block.parentIndex = some parent

def Block.unplaced (block : Block) : Block := { block with parentIndex := none, orderIndex := 0 }

theorem isTree_concat {blocks : List Block} {block : Block} (isTree : IsTree blocks)
    (placed : Placed blocks block) : IsTree (blocks ++ [block]) := by
  intro before other after split
  rcases eq_nil_or_concat after with rfl | ⟨others, last, rfl⟩
  · obtain ⟨rfl, isOther⟩ := append_inj' split rfl
    obtain rfl := singleton_inj.1 isOther
    exact placed
  · rw [concat_eq_append, ← cons_append, ← append_assoc] at split
    exact isTree before other others (append_inj' split rfl).1

theorem Placed.parent_lt {earlier : List Block} {block : Block} {parent : Nat}
    (placed : Placed earlier block) (isParent : block.parentIndex = some parent) :
    parent < earlier.length := by
  have nearest := placed.parent
  rw [isParent] at nearest
  have ⟨⟨_, read, _⟩, _⟩ := nearest
  simpa using (List.getElem?_eq_some_iff.1 read).1

theorem IsTree.parent_lt {blocks : List Block} {parent child : Nat} (isTree : IsTree blocks)
    (isParent : IsParent blocks parent child) : parent < child := by
  have ⟨block, read, found⟩ := isParent
  have ⟨inside, isBlock⟩ := List.getElem?_eq_some_iff.1 read
  have split : blocks = blocks.take child ++ block :: blocks.drop (child + 1) := by
    rw [← isBlock, getElem_cons_drop, take_append_drop]
  have before := (isTree _ _ _ split).parent_lt found
  rw [length_take] at before
  omega

theorem IsTree.acyclic {blocks : List Block} (isTree : IsTree blocks) (index : Nat) :
    ¬ Relation.TransGen (IsParent blocks) index index := by
  intro cycle
  have descends : ∀ {first last}, Relation.TransGen (IsParent blocks) first last → first < last := by
    intro first last path
    induction path with
    | single step => exact isTree.parent_lt step
    | tail _ step ih =>
      exact lt_trans ih (isTree.parent_lt step)
  exact lt_irrefl index (descends cycle)

/-! ### The pass makes a tree -/

def Indexed (parent : Option Nat) : Prop := ∀ index, parent = some index → index < noParent

theorem key_injective {first second : Option Nat} (isFirst : Indexed first)
    (isSecond : Indexed second) (same : first.getD noParent = second.getD noParent) :
    first = second := by
  cases first with
  | none =>
    cases second with
    | none => rfl
    | some index => exact absurd same.symm (isSecond index rfl).ne
  | some index =>
    cases second with
    | none => exact absurd same (isFirst index rfl).ne
    | some other => exact congrArg some same

structure TreeState.Holds (state : TreeState) (placed : List Block) : Prop where
  nesting : Nesting.Holds (placed.map Block.depth) state.stack
  counts : ∀ parent, Indexed parent → (state.siblingCounter.get (parent.getD noParent)).getD 0
      = placed.countP fun other => other.parentIndex = parent

/-- **One step.** The block is placed and the state holds of it too. -/
theorem assignStep_placed {state : TreeState} {placed : List Block} (holds : state.Holds placed)
    (inSlice : placed.length < usizeMax) (block : Block) :
    Placed placed (assignStep state placed.length block).1
      ∧ (assignStep state placed.length block).2.Holds
          (placed ++ [(assignStep state placed.length block).1]) := by
  have nearest := holds.nesting.nearest block.depth
  have indexed : Indexed ((popFrom block.depth state.stack).head?.map Prod.snd) := by
    intro index isParent
    rw [isParent] at nearest
    have ⟨⟨_, read, _⟩, _⟩ := nearest
    have inside := (List.getElem?_eq_some_iff.1 read).1
    rw [length_map] at inside
    exact lt_trans inside inSlice
  have counted := holds.counts _ indexed
  refine ⟨⟨nearest, counted⟩, ⟨?_, ?_⟩⟩
  · have pushed := holds.nesting.push block.depth
    rw [length_map] at pushed
    rw [map_append]
    exact pushed
  · intro parent isIndexed
    rw [assignStep, OrderedMap.get_insert, countP_append, countP_singleton]
    by_cases same : (popFrom block.depth state.stack).head?.map Prod.snd = parent
    · rw [← same, if_pos rfl, if_pos (decide_eq_true rfl), Option.getD_some, counted]
    · have otherKey : parent.getD noParent
          ≠ ((popFrom block.depth state.stack).head?.map Prod.snd).getD noParent :=
        fun sameKey => same (key_injective indexed isIndexed sameKey.symm)
      rw [if_neg otherKey, holds.counts parent isIndexed, if_neg (by simpa using same)]
      rfl

/-- **A whole run.** What is placed stays a tree. -/
theorem assignFrom_isTree (rest : List Block) :
    ∀ {state : TreeState} {placed : List Block}, state.Holds placed → IsTree placed →
      placed.length + rest.length ≤ usizeMax →
      IsTree (placed ++ assignFrom state placed.length rest) := by
  induction rest with
  | nil =>
    intro state placed _ isTree _
    rw [assignFrom, append_nil]
    exact isTree
  | cons block rest ih =>
    intro state placed holds isTree inSlice
    rw [length_cons] at inSlice
    have ⟨isPlaced, stillHolds⟩ := assignStep_placed holds (by omega) block
    have longer := ih stillHolds (isTree_concat isTree isPlaced)
      (by rw [length_append, length_singleton]; omega)
    rw [length_append, length_singleton, append_assoc, singleton_append]
      at longer
    exact longer

theorem unplaced_assignFrom (rest : List Block) : ∀ (state : TreeState) (index : Nat),
      (assignFrom state index rest).map Block.unplaced = rest.map Block.unplaced := by
  induction rest with
  | nil => exact fun _ _ => rfl
  | cons block rest ih =>
    intro state index
    rw [assignFrom, map_cons, map_cons, ih]
    rfl

/-- **The block tree.** Each block has as parent the nearest earlier shallower block, and as place
the number of earlier blocks with that parent; no block is among its ancestors. -/
theorem assignParentsAndOrder_isTree (blocks : BlockSlice) :
    (assignParentsAndOrder blocks).map Block.unplaced = blocks.val.map Block.unplaced
      ∧ IsTree (assignParentsAndOrder blocks)
      ∧ (∀ parent child, IsParent (assignParentsAndOrder blocks) parent child → parent < child)
      ∧ ∀ index, ¬ Relation.TransGen (IsParent (assignParentsAndOrder blocks)) index index := by
  have start : TreeState.Holds ⟨[], .empty⟩ [] := ⟨holds_nil, fun _ _ => rfl⟩
  have isTree : IsTree (assignParentsAndOrder blocks) :=
    assignFrom_isTree blocks.val start (fun _ _ _ empty => by simp at empty)
      (by simpa using blocks.property)
  exact ⟨unplaced_assignFrom _ _ _, isTree, fun _ _ => isTree.parent_lt, isTree.acyclic⟩

end Clepsydra.Vault.Blocks
