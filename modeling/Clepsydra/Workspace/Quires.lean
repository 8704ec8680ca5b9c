import Clepsydra.Library.Table

/-!
Owns: tabs and quires, and the rules that find a visible tab and restore the order.

Proves: `normalize_quires` keeps every tab, and puts the tabs of a quire side by side.
-/

namespace Clepsydra.Workspace

open Library List

/-! ### Tabs and quires -/

inductive TabType where
  | page
  | graph
deriving DecidableEq

/-- `TabDescriptor`. -/
structure Tab where
  id : String
  type : TabType
  pageId : Option String
  path : Option String
  label : String
  lastActiveAt : Option Nat
  quireId : Option String
  focusBlockId : Option String
  focusHeading : Option String
  focusRequestId : Option String
deriving DecidableEq

inductive QuireColor where
  | sepia
  | verdigris
  | slate
  | madder
  | ochre
  | indigo
deriving DecidableEq

structure Quire where
  id : String
  name : String
  color : QuireColor
  collapsed : Bool
deriving DecidableEq

abbrev Quires := Table String Quire Quire.id

def Tab.quire (tab : Tab) : Option String := tab.quireId.filter (· ≠ "")

def Quires.put (quires : Quires) (quire : Quire) : Quires := Table.insertOrIgnore
    (quires.modify quire.id (fun old => { quire with id := old.id }) fun _ => rfl) quire

def Quires.remove (quires : Quires) (id : String) : Quires := quires.erase id

def Quires.collapsed (quires : Quires) (id : String) : Bool :=
  match quires.get id with
  | none => false
  | some quire => quire.collapsed

def quireColors : List QuireColor := [.sepia, .verdigris, .slate, .madder, .ochre, .indigo]

/-- `nextQuireColor`. -/
def nextQuireColor (quires : Quires) : QuireColor :=
  match quireColors.find? fun color => color ∉ quires.rows.map Quire.color with
  | some color => color
  | none => quireColors.getD (quires.rows.length % quireColors.length) .sepia

/-- `isTabHidden`. -/
def isTabHidden (tab : Tab) (quires : Quires) : Bool :=
  match tab.quire with
  | none => false
  | some id => quires.collapsed id

/-- `nearestVisibleTabId`: to the right of an index, then to its left. -/
def nearestVisibleTabId (tabs : List Tab) (quires : Quires) (index : Nat) : Option String :=
  let visible := fun tab => !isTabHidden tab quires
  (((tabs.drop index).find? visible).or ((tabs.take index).reverse.find? visible)).map Tab.id

/-! ### Restoring the order -/

def cleanTab (quires : Quires) (tab : Tab) : Tab :=
  match tab.quire with
  | none => tab
  | some id => if (quires.get id).isNone then { tab with quireId := none } else tab

def gather (all : List Tab) : List String → List Tab → List Tab
  | _, [] => []
  | seen, tab :: rest =>
    match tab.quire with
    | none => tab :: gather all seen rest
    | some id =>
      if id ∈ seen then gather all seen rest
      else (all.filter fun member => member.quire = some id) ++ gather all (id :: seen) rest

def liveQuires (tabs : List Tab) (quires : Quires) : Quires where
  rows := quires.rows.filter fun quire => some quire.id ∈ tabs.map Tab.quire
  distinct := quires.distinct.sublist (filter_sublist.map Quire.id)

/-- `normalizeQuires`. -/
def normalizeQuires (tabs : List Tab) (quires : Quires) : List Tab × Quires :=
  let cleaned := tabs.map (cleanTab quires)
  (gather cleaned [] cleaned, liveQuires cleaned quires)

/-! ### Reading quires -/

theorem Quires.get_put (quires : Quires) (quire : Quire) (id : String) :
    (quires.put quire).get id = if id = quire.id then some quire else quires.get id := by
  unfold put
  rw [Table.get_insertOrIgnore, Table.get_modify]
  by_cases here : id = quire.id
  · rw [if_pos here, if_pos here]
    cases found : quires.get id with
    | none => simp [here]
    | some old =>
      have isId : old.id = quire.id := (Table.key_of_get found).trans here
      simp [isId]
  · rw [if_neg here, if_neg here, if_neg fun both => here both.1.symm]

theorem get_liveQuires (tabs : List Tab) (quires : Quires) (id : String) :
    (liveQuires tabs quires).get id
      = if some id ∈ tabs.map Tab.quire then quires.get id else none := by
  unfold Table.get liveQuires
  rw [find?_filter]
  by_cases member : some id ∈ tabs.map Tab.quire
  · rw [if_pos member]
    congr 1
    funext quire
    by_cases here : quire.id = id
    · simp only [here, member, decide_true, and_self]
    · simp only [here, decide_false, Bool.false_eq_true, and_false]
  · rw [if_neg member, find?_eq_none]
    intro quire _
    by_cases here : quire.id = id
    · simp only [here, member, decide_false, Bool.false_eq_true, false_and, not_false_eq_true]
    · simp only [here, decide_false, Bool.false_eq_true, and_false, not_false_eq_true]

@[simp] theorem id_cleanTab (quires : Quires) (tab : Tab) : (cleanTab quires tab).id = tab.id := by
  unfold cleanTab
  split
  · rfl
  · split_ifs <;> rfl

theorem quire_cleanTab (quires : Quires) (tab : Tab) : (cleanTab quires tab).quire
      = match tab.quire with
        | none => none
        | some id => if (quires.get id).isNone then none else some id := by
  unfold cleanTab
  split
  · rename_i loose
    exact loose
  · rename_i id isQuire
    split_ifs
    · rfl
    · exact isQuire

/-! ### The gathered tabs -/

def Contiguous (quires : List (Option String)) (id : String) : Prop :=
  ∃ before count after, quires = before ++ List.replicate count (some id) ++ after
    ∧ some id ∉ before ∧ some id ∉ after

section Gather

variable {all : List Tab} {rest : List Tab}

theorem mem_gather {tab : Tab} : ∀ {seen : List String},
    tab ∈ gather all seen rest →
      (tab.quire = none ∧ tab ∈ rest) ∨ ∃ id, id ∉ seen ∧ tab.quire = some id ∧ tab ∈ all := by
  induction rest with
  | nil => exact fun member => absurd member not_mem_nil
  | cons first rest ih =>
    intro seen member
    unfold gather at member
    cases named : first.quire with
    | none =>
      simp only [named] at member
      rcases mem_cons.1 member with isFirst | later
      · rw [isFirst]
        exact .inl ⟨named, mem_cons_self⟩
      · rcases ih later with ⟨loose, inRest⟩ | gathered
        · exact .inl ⟨loose, mem_cons_of_mem _ inRest⟩
        · exact .inr gathered
    | some id =>
      simp only [named] at member
      by_cases known : id ∈ seen
      · rw [if_pos known] at member
        rcases ih member with ⟨loose, inRest⟩ | gathered
        · exact .inl ⟨loose, mem_cons_of_mem _ inRest⟩
        · exact .inr gathered
      · rw [if_neg known] at member
        rcases mem_append.1 member with inBlock | later
        · have ⟨inAll, isQuire⟩ := mem_filter.1 inBlock
          exact .inr ⟨id, known, by simpa using isQuire, inAll⟩
        · rcases ih later with ⟨loose, inRest⟩ | ⟨id', unseen, isQuire, inAll⟩
          · exact .inl ⟨loose, mem_cons_of_mem _ inRest⟩
          · exact .inr ⟨id', fun inSeen => unseen (mem_cons_of_mem _ inSeen), isQuire, inAll⟩

theorem gather_keeps {tab : Tab} (inAll : tab ∈ all) : ∀ {seen : List String},
    tab ∈ rest → (∀ id ∈ seen, tab.quire ≠ some id) → tab ∈ gather all seen rest := by
  induction rest with
  | nil => exact fun member => absurd member not_mem_nil
  | cons first rest ih =>
    intro seen member unseen
    unfold gather
    cases named : first.quire with
    | none =>
      simp only
      rcases mem_cons.1 member with isFirst | later
      · rw [isFirst]
        exact mem_cons_self
      · exact mem_cons_of_mem _ (ih later unseen)
    | some id =>
      simp only
      by_cases known : id ∈ seen
      · rw [if_pos known]
        rcases mem_cons.1 member with isFirst | later
        · rw [isFirst] at unseen
          exact absurd named (unseen id known)
        · exact ih later unseen
      · rw [if_neg known, mem_append]
        by_cases inBlock : tab.quire = some id
        · exact .inl (mem_filter.2 ⟨inAll, by simpa using inBlock⟩)
        · right
          rcases mem_cons.1 member with isFirst | later
          · rw [isFirst] at inBlock
            exact absurd named inBlock
          · refine ih later fun other inSeen => ?_
            rcases mem_cons.1 inSeen with isId | earlier
            · rw [isId]
              exact inBlock
            · exact unseen other earlier

theorem nodup_gather (distinct : all.Nodup) : ∀ {seen : List String},
    rest.Nodup → (gather all seen rest).Nodup := by
  induction rest with
  | nil => exact fun _ => nodup_nil
  | cons first rest ih =>
    intro seen distinctRest
    have ⟨notInRest, distinctTail⟩ := nodup_cons.1 distinctRest
    unfold gather
    cases named : first.quire with
    | none =>
      refine nodup_cons.2 ⟨fun again => ?_, ih distinctTail⟩
      rcases mem_gather again with ⟨_, inRest⟩ | ⟨id, _, isQuire, _⟩
      · exact notInRest inRest
      · rw [named] at isQuire
        cases isQuire
    | some id =>
      simp only
      by_cases known : id ∈ seen
      · rw [if_pos known]
        exact ih distinctTail
      · rw [if_neg known]
        refine (distinct.filter _).append (ih distinctTail) ?_
        intro tab inBlock later
        have isQuire : tab.quire = some id := by simpa using (mem_filter.1 inBlock).2
        rcases mem_gather later with ⟨loose, _⟩ | ⟨id', unseen, isOther, _⟩
        · rw [loose] at isQuire
          cases isQuire
        · rw [isOther] at isQuire
          exact unseen (Option.some.inj isQuire ▸ mem_cons_self)

theorem gather_seen {seen : List String} {id : String} (isSeen : id ∈ seen) :
    some id ∉ (gather all seen rest).map Tab.quire := by
  intro member
  have ⟨tab, inGathered, isQuire⟩ := mem_map.1 member
  rcases mem_gather inGathered with ⟨loose, _⟩ | ⟨id', unseen, isOther, _⟩
  · rw [loose] at isQuire
    cases isQuire
  · rw [isOther] at isQuire
    exact unseen (Option.some.inj isQuire ▸ isSeen)

theorem map_quire_block (id : String) :
    (all.filter fun member => member.quire = some id).map Tab.quire
      = List.replicate (all.filter fun member => member.quire = some id).length (some id) := by
  rw [eq_replicate_iff]
  refine ⟨by simp, fun quire member => ?_⟩
  have ⟨tab, inBlock, isQuire⟩ := mem_map.1 member
  rw [← isQuire]
  simpa using (mem_filter.1 inBlock).2

theorem contiguous_gather {id : String} : ∀ {seen : List String}, id ∉ seen →
    Contiguous ((gather all seen rest).map Tab.quire) id := by
  induction rest with
  | nil => exact fun _ => ⟨[], 0, [], rfl, not_mem_nil, not_mem_nil⟩
  | cons first rest ih =>
    intro seen unseen
    unfold gather
    cases named : first.quire with
    | none =>
      have ⟨before, count, after, isList, notBefore, notAfter⟩ := ih unseen
      refine ⟨none :: before, count, after, ?_, ?_, notAfter⟩
      · rw [map_cons, named, isList]
        rfl
      · exact not_mem_cons_of_ne_of_not_mem (by simp) notBefore
    | some other =>
      simp only
      by_cases known : other ∈ seen
      · rw [if_pos known]
        exact ih unseen
      · rw [if_neg known, map_append, map_quire_block]
        by_cases isThis : other = id
        · rw [isThis]
          exact ⟨[], _, _, by rw [nil_append], not_mem_nil,
            gather_seen mem_cons_self⟩
        · have stillUnseen : id ∉ other :: seen :=
            not_mem_cons_of_ne_of_not_mem (Ne.symm isThis) unseen
          have ⟨before, count, after, isList, notBefore, notAfter⟩ := ih stillUnseen
          rw [isList]
          generalize (all.filter fun member => member.quire = some other).length = size
          refine ⟨List.replicate size (some other) ++ before, count, after, ?_, ?_, notAfter⟩
          · rw [append_assoc, append_assoc, append_assoc]
          · intro member
            rcases mem_append.1 member with inBlock | inBefore
            · exact isThis (Option.some.inj (eq_of_mem_replicate inBlock)).symm
            · exact notBefore inBefore

end Gather

end Clepsydra.Workspace
