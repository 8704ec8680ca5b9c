import Clepsydra.Workspace.Store

/-!
Owns: what the workspace store keeps true of its tabs.

Proves: every run of actions that are ready for their states keeps the tabs consistent; and only the
closing actions remove a tab.
-/

namespace Clepsydra.Workspace

open Library Library.Transitions List Option

/-! ### Consistency -/

def ActiveIn (tabs : List Tab) (quires : Quires) (active : Option String) : Prop :=
  ∀ id, active = some id → ∃ tab ∈ tabs, tab.id = id ∧ isTabHidden tab quires = false

structure Consistent (state : WorkspaceState) : Prop where
  distinct : (state.tabs.map Tab.id).Nodup
  contiguous : ∀ id, Contiguous (state.tabs.map Tab.quire) id
  quires : ∀ id, (state.quires.get id).isSome ↔ some id ∈ state.tabs.map Tab.quire
  active : ActiveIn state.tabs state.quires state.activeTabId

structure Sound (state : WorkspaceState) : Prop where
  consistent : Consistent state
  named : ∀ tab ∈ state.tabs, tab.id ≠ ""

/-! ### Visibility -/

variable {quires : Quires}

theorem activeIn_none (tabs : List Tab) (quires : Quires) : ActiveIn tabs quires none :=
  fun _ isSome => nomatch isSome

theorem activeIn_nearest (tabs : List Tab) (quires : Quires) (index : Nat) :
    ActiveIn tabs quires (nearestVisibleTabId tabs quires index) := by
  intro id found
  unfold nearestVisibleTabId at found
  have ⟨tab, isTab, isId⟩ := map_eq_some_iff.1 found
  rcases or_eq_some_iff.1 isTab with onRight | ⟨_, onLeft⟩
  · refine ⟨tab, mem_of_mem_drop (mem_of_find?_eq_some onRight), isId, ?_⟩
    simpa using find?_some onRight
  · have inTaken := mem_reverse.1 (mem_of_find?_eq_some onLeft)
    refine ⟨tab, mem_of_mem_take inTaken, isId, ?_⟩
    simpa using find?_some onLeft

theorem isTabHidden_congr {tab tab' : Tab} {quires' : Quires} (sameQuire : tab'.quire = tab.quire)
    (sameState : ∀ id, tab.quire = some id → quires'.collapsed id = quires.collapsed id) :
    isTabHidden tab' quires' = isTabHidden tab quires := by
  unfold isTabHidden
  rw [sameQuire]
  cases named : tab.quire with
  | none => rfl
  | some id => exact sameState id named

theorem isTabHidden_loose {tab : Tab} (loose : tab.quireId = none) :
    isTabHidden tab quires = false := by
  simp [isTabHidden, Tab.quire, loose]

theorem ActiveIn.mono {tabs tabs' : List Tab} {quires' : Quires} {active : Option String}
    (activeIn : ActiveIn tabs quires active)
    (carries : ∀ tab ∈ tabs, some tab.id = active → isTabHidden tab quires = false →
      ∃ tab' ∈ tabs', tab'.id = tab.id ∧ isTabHidden tab' quires' = false) :
    ActiveIn tabs' quires' active := by
  intro id isActive
  have ⟨tab, member, isId, visible⟩ := activeIn id isActive
  have ⟨tab', member', sameId, visible'⟩ := carries tab member (by rw [isId, isActive]) visible
  exact ⟨tab', member', sameId.trans isId, visible'⟩

theorem collapsed_put (quires : Quires) (quire : Quire) (id : String) :
    (quires.put quire).collapsed id = if id = quire.id then quire.collapsed else quires.collapsed id := by
  unfold Quires.collapsed
  rw [Quires.get_put]
  by_cases here : id = quire.id
  · rw [if_pos here, if_pos here]
  · rw [if_neg here, if_neg here]

theorem isSome_put {quire : Quire} (present : (quires.get quire.id).isSome) (id : String) :
    ((quires.put quire).get id).isSome = (quires.get id).isSome := by
  rw [Quires.get_put]
  by_cases here : id = quire.id
  · rw [if_pos here, here, present, isSome_some]
  · rw [if_neg here]

theorem expand_cases (quires : Quires) (quireId : Option String) :
    (∀ id, ((quires.expand quireId).get id).isSome = (quires.get id).isSome)
      ∧ ∀ tab : Tab, tab.quireId = quireId → isTabHidden tab (quires.expand quireId) = false := by
  unfold Quires.expand
  cases found : (truthy quireId).bind quires.get with
  | none =>
    refine ⟨fun _ => rfl, fun tab same => ?_⟩
    simp only
    unfold isTabHidden Tab.quire
    rw [same]
    cases named : truthy quireId with
    | none =>
      unfold truthy at named
      rw [named]
    | some id =>
      rw [named, bind_some] at found
      unfold truthy at named
      rw [named]
      simp [Quires.collapsed, found]
  | some quire =>
    have ⟨id, named, isQuire⟩ := bind_eq_some_iff.1 found
    have isId : quire.id = id := Table.key_of_get isQuire
    simp only
    by_cases collapsed : quire.collapsed = true
    · rw [if_pos collapsed]
      refine ⟨fun other => isSome_put (by simp [isId, isQuire]) other, fun tab same => ?_⟩
      unfold isTabHidden Tab.quire
      unfold truthy at named
      rw [same, named]
      simp only
      rw [collapsed_put, if_pos isId.symm]
    · rw [if_neg collapsed]
      refine ⟨fun _ => rfl, fun tab same => ?_⟩
      unfold isTabHidden Tab.quire
      unfold truthy at named
      rw [same, named]
      simpa [Quires.collapsed, isQuire] using collapsed

/-! ### The two ways a state is made -/

section Normalized

variable {state : WorkspaceState} {tabs : List Tab} {quires : Quires}

theorem mem_normalized {tab : Tab} :
    tab ∈ (normalized state tabs quires).tabs ↔ tab ∈ tabs.map (cleanTab quires) := by
  constructor
  · intro member
    rcases mem_gather member with ⟨_, inRest⟩ | ⟨_, _, _, inAll⟩
    · exact inRest
    · exact inAll
  · intro member
    exact gather_keeps member member fun _ isSeen => absurd isSeen not_mem_nil

theorem mem_ids_normalized {id : String} :
    id ∈ (normalized state tabs quires).tabs.map Tab.id ↔ id ∈ tabs.map Tab.id := by
  simp only [List.mem_map]
  constructor
  · rintro ⟨tab, member, isId⟩
    have ⟨original, inTabs, isTab⟩ := List.mem_map.1 (mem_normalized.1 member)
    rw [← isTab, id_cleanTab] at isId
    exact ⟨original, inTabs, isId⟩
  · rintro ⟨tab, member, isId⟩
    exact ⟨cleanTab quires tab, mem_normalized.2 (List.mem_map_of_mem member),
      by rw [id_cleanTab, isId]⟩

theorem sound_normalized (distinct : (tabs.map Tab.id).Nodup)
    (active : ActiveIn tabs quires state.activeTabId) (named : ∀ tab ∈ tabs, tab.id ≠ "") :
    Sound (normalized state tabs quires) := by
  have sameIds : (tabs.map (cleanTab quires)).map Tab.id = tabs.map Tab.id := by
    rw [List.map_map]
    exact map_congr_left fun tab _ => id_cleanTab quires tab
  have distinctCleaned : ((tabs.map (cleanTab quires)).map Tab.id).Nodup := by
    rw [sameIds]
    exact distinct
  have memQuires : ∀ id, some id ∈ (normalized state tabs quires).tabs.map Tab.quire
      ↔ some id ∈ (tabs.map (cleanTab quires)).map Tab.quire := by
    intro id
    simp only [List.mem_map (f := Tab.quire), mem_normalized]
  constructor
  · constructor
    · refine List.Nodup.map_on ?_ (nodup_gather distinctCleaned.of_map distinctCleaned.of_map)
      intro tab member tab' member' same
      exact inj_on_of_nodup_map distinctCleaned (mem_normalized.1 member)
        (mem_normalized.1 member') same
    · exact fun id => contiguous_gather not_mem_nil
    · intro id
      rw [memQuires]
      show ((liveQuires (tabs.map (cleanTab quires)) quires).get id).isSome ↔ _
      rw [get_liveQuires]
      by_cases member : some id ∈ (tabs.map (cleanTab quires)).map Tab.quire
      · rw [if_pos member]
        refine ⟨fun _ => member, fun _ => ?_⟩
        have ⟨tab, inCleaned, isQuire⟩ := List.mem_map.1 member
        have ⟨original, _, isTab⟩ := List.mem_map.1 inCleaned
        rw [← isTab, quire_cleanTab] at isQuire
        split at isQuire
        · cases isQuire
        · rename_i other _
          split_ifs at isQuire with missing
          rw [← some.inj isQuire, isSome_iff_ne_none]
          simpa using missing
      · rw [if_neg member]
        exact ⟨fun isSome => (nomatch isSome), fun isMember => absurd isMember member⟩
    · refine active.mono fun tab member _ visible => ?_
      refine ⟨cleanTab quires tab, mem_normalized.2 (List.mem_map_of_mem member),
        id_cleanTab quires tab, ?_⟩
      show isTabHidden (cleanTab quires tab) (liveQuires (tabs.map (cleanTab quires)) quires) = false
      unfold isTabHidden
      cases isQuire : (cleanTab quires tab).quire with
      | none => rfl
      | some id =>
        have live : some id ∈ (tabs.map (cleanTab quires)).map Tab.quire :=
          List.mem_map.2 ⟨_, List.mem_map_of_mem member, isQuire⟩
        have own : tab.quire = some id := by
          rw [quire_cleanTab] at isQuire
          split at isQuire
          · cases isQuire
          · rename_i other isOther
            split_ifs at isQuire
            rw [isOther, isQuire]
        simp only [Quires.collapsed, get_liveQuires, if_pos live]
        unfold isTabHidden at visible
        rw [own] at visible
        exact visible
  · intro tab member
    have ⟨original, inTabs, isTab⟩ := List.mem_map.1 (mem_normalized.1 member)
    rw [← isTab, id_cleanTab]
    exact named original inTabs

end Normalized

theorem sound_of_sameOrder {state next : WorkspaceState} (sound : Sound state)
    (sameIds : next.tabs.map Tab.id = state.tabs.map Tab.id)
    (sameQuires : next.tabs.map Tab.quire = state.tabs.map Tab.quire)
    (sameKeys : ∀ id, (next.quires.get id).isSome = (state.quires.get id).isSome)
    (active : ActiveIn next.tabs next.quires next.activeTabId) : Sound next := by
  constructor
  · constructor
    · rw [sameIds]
      exact sound.consistent.distinct
    · rw [sameQuires]
      exact sound.consistent.contiguous
    · intro id
      rw [sameKeys, sameQuires]
      exact sound.consistent.quires id
    · exact active
  · intro tab member isEmpty
    have inIds : "" ∈ state.tabs.map Tab.id := by
      rw [← sameIds, ← isEmpty]
      exact List.mem_map_of_mem member
    have ⟨original, inTabs, isId⟩ := List.mem_map.1 inIds
    exact sound.named original inTabs isId

/-! ### When an action is ready -/

def Ready (draw : Draw) (state : WorkspaceState) : Action → Prop
  | .openTab _ _ _ _ => draw.id ≠ "" ∧ draw.id ∉ state.tabs.map Tab.id
  | .addTab tab =>
    tab.id ≠ "" ∧ tab.id ∉ state.tabs.map Tab.id ∧ isTabHidden tab state.quires = false
  | .activateTab tabId => tabId ∈ state.tabs.map Tab.id
  | .activateTabFromHistory tabId => tabId ∈ state.tabs.map Tab.id
  | .closeOtherTabs tabId =>
    ∃ tab ∈ state.tabs, tab.id = tabId ∧ isTabHidden tab state.quires = false
  | _ => True

instance (draw : Draw) (state : WorkspaceState) : DecidablePred (Ready draw state)
  | .openTab _ _ _ _ => inferInstanceAs (Decidable (_ ∧ _))
  | .addTab _ => inferInstanceAs (Decidable (_ ∧ _ ∧ _))
  | .activateTab _ => inferInstanceAs (Decidable (_ ∈ _))
  | .activateTabFromHistory _ => inferInstanceAs (Decidable (_ ∈ _))
  | .closeOtherTabs tabId =>
    inferInstanceAs (Decidable (∃ tab ∈ state.tabs, tab.id = tabId ∧ isTabHidden tab state.quires = false))
  | .closeTab _ | .closeAllTabs | .closeArchivedPageTabs _ _ | .clearActiveTab | .clearWorkspace
  | .clearTabFocus _ | .takeTabFocus _ _ | .moveTab _ _ | .updateTabLabel _ _ | .setTabPageId _ _
  | .updateTabPath _ _ _ | .setNavigationMode _ | .createQuire _ _ | .addTabToQuire _ _
  | .removeTabFromQuire _ | .renameQuire _ _ | .recolorQuire _ _ | .toggleQuireCollapse _
  | .closeQuireTabs _ | .ungroupQuire _ => isTrue trivial

section Actions

variable {state : WorkspaceState} {draw : Draw}

@[simp] theorem id_withTarget (type : TabType) (tab : Tab) (target : Option OpenTabTarget)
    (requestId : String) : (withTarget type tab target requestId).id = tab.id := by
  unfold withTarget
  simp only
  split_ifs <;> rfl

@[simp] theorem quireId_withTarget (type : TabType) (tab : Tab) (target : Option OpenTabTarget)
    (requestId : String) : (withTarget type tab target requestId).quireId = tab.quireId := by
  unfold withTarget
  simp only
  split_ifs <;> rfl

variable {change : Tab → Tab}

theorem sound_map {history : List OpenHistoryEntry} (sound : Sound state)
    (sameId : ∀ tab, (change tab).id = tab.id) (sameQuire : ∀ tab, (change tab).quire = tab.quire) :
    Sound { state with tabs := state.tabs.map change, openHistory := history } := by
  refine sound_of_sameOrder sound ?_ ?_ (fun _ => rfl) ?_
  · rw [List.map_map]
    exact map_congr_left fun tab _ => sameId tab
  · rw [List.map_map]
    exact map_congr_left fun tab _ => sameQuire tab
  · refine sound.consistent.active.mono fun tab member _ visible => ?_
    refine ⟨change tab, List.mem_map_of_mem member, sameId tab, ?_⟩
    rw [← visible]
    exact isTabHidden_congr (sameQuire tab) fun _ _ => rfl

variable {tabId : String}

theorem sound_mapTab (sound : Sound state) (sameId : ∀ tab, (change tab).id = tab.id)
    (sameQuire : ∀ tab, (change tab).quire = tab.quire) :
    Sound (mapTab state tabId change) := by
  have keeps : Sound { state with
      tabs := state.tabs.map fun tab => if tab.id = tabId then change tab else tab } := by
    refine sound_map sound (fun tab => ?_) fun tab => ?_
    · split_ifs
      · exact sameId tab
      · rfl
    · split_ifs
      · exact sameQuire tab
      · rfl
  exact keeps

theorem sound_activated {history : List OpenHistoryEntry} {tab : Tab} (sound : Sound state)
    (member : tab ∈ state.tabs) (sameId : ∀ tab, (change tab).id = tab.id)
    (sameQuire : ∀ tab, (change tab).quireId = tab.quireId) :
    Sound { state with
        activeTabId := some tab.id
        tabs := state.tabs.map change
        quires := state.quires.expand tab.quireId
        openHistory := history } := by
  have ⟨sameKeys, visible⟩ := expand_cases state.quires tab.quireId
  refine sound_of_sameOrder sound ?_ ?_ sameKeys ?_
  · rw [List.map_map]
    exact map_congr_left fun tab _ => sameId tab
  · rw [List.map_map]
    exact map_congr_left fun tab _ => by simp only [Function.comp, Tab.quire, sameQuire tab]
  · intro id isActive
    refine ⟨change tab, List.mem_map_of_mem member, (sameId tab).trans (some.inj isActive), ?_⟩
    exact visible (change tab) (sameQuire tab)

theorem tab_of_mem (isOpen : tabId ∈ state.tabs.map Tab.id) :
    ∃ tab, state.tab tabId = some tab ∧ tab ∈ state.tabs ∧ tab.id = tabId := by
  have ⟨member, inTabs, isId⟩ := List.mem_map.1 isOpen
  cases found : state.tab tabId with
  | none =>
    unfold WorkspaceState.tab at found
    rw [find?_eq_none] at found
    exact absurd (by simpa using isId) (found member inTabs)
  | some tab =>
    exact ⟨tab, rfl, mem_of_find?_eq_some found, by simpa using find?_some found⟩

theorem sound_activatedTabState {now : Nat} (sound : Sound state)
    (isOpen : tabId ∈ state.tabs.map Tab.id) : Sound (activatedTabState state tabId now) := by
  have ⟨tab, found, member, isId⟩ := tab_of_mem isOpen
  unfold activatedTabState
  simp only [found, bind_some]
  rw [← isId]
  refine sound_activated sound member (fun other => ?_) fun other => ?_
  · split_ifs <;> rfl
  · split_ifs <;> rfl

theorem sound_focusTab {existing : Tab} {target : Option OpenTabTarget} (sound : Sound state)
    (member : existing ∈ state.tabs) : Sound (focusTab draw state existing target) := by
  unfold focusTab
  refine sound_activated sound member (fun other => ?_) fun other => ?_
  · split_ifs
    · rw [id_withTarget]
    · rfl
  · split_ifs
    · rw [quireId_withTarget]
    · rfl

theorem sound_appended {tab : Tab} {history : List OpenHistoryEntry} (sound : Sound state)
    (isNamed : tab.id ≠ "") (isNew : tab.id ∉ state.tabs.map Tab.id)
    (visible : isTabHidden tab state.quires = false) :
    Sound (normalized { state with openHistory := history, activeTabId := some tab.id }
        (state.tabs.map withoutTabFocus ++ [tab]) state.quires) := by
  have sameIds : (state.tabs.map withoutTabFocus).map Tab.id = state.tabs.map Tab.id := by
    rw [List.map_map]
    rfl
  apply sound_normalized
  · rw [map_append, sameIds, map_singleton]
    exact sound.consistent.distinct.append (nodup_singleton _)
      (by simpa [disjoint_singleton] using isNew)
  · intro id isActive
    exact ⟨tab, mem_append_right _ (mem_singleton_self _), some.inj isActive, visible⟩
  · intro other member
    rcases mem_append.1 member with earlier | isLast
    · obtain ⟨original, inTabs, isOther⟩ := List.mem_map.1 earlier
      rw [← isOther]
      exact sound.named original inTabs
    · rw [mem_singleton.1 isLast]
      exact isNamed

theorem visible_inherited (state : WorkspaceState) (type : TabType) (made : Tab) :
    isTabHidden { made with quireId := inheritedQuireId state type } state.quires = false := by
  unfold inheritedQuireId
  split
  · exact isTabHidden_loose rfl
  · rename_i active _
    split_ifs with inherits
    · have sameQuire : ({ made with quireId := active.quireId } : Tab).quire = active.quire := rfl
      rw [isTabHidden_congr sameQuire fun _ _ => rfl]
      exact inherits.2.2
    · exact isTabHidden_loose rfl

variable (sound : Sound state)

include sound

theorem sound_openTab {type : TabType} {path label : Option String} {target : Option OpenTabTarget}
    (isNamed : draw.id ≠ "") (isNew : draw.id ∉ state.tabs.map Tab.id) :
    Sound (openTab draw state type path label target) := by
  unfold openTab
  cases found : findExisting state type path with
  | some existing =>
    simp only
    exact sound_focusTab sound (mem_of_find?_eq_some found)
  | none =>
    simp only
    split_ifs with replaces
    · -- the slot keeps its id and its quire, so the active tab stays visible
      have sameIds : (state.tabs.map fun tab =>
          if some tab.id = state.activeTabId then
            { newTab draw type path label target with id := tab.id, quireId := tab.quireId }
          else withoutTabFocus tab).map Tab.id = state.tabs.map Tab.id := by
        rw [List.map_map]
        apply map_congr_left
        intro tab _
        simp only [Function.comp]
        split_ifs <;> rfl
      apply sound_normalized
      · rw [sameIds]
        exact sound.consistent.distinct
      · refine sound.consistent.active.mono fun tab member isActive visible => ?_
        refine ⟨_, List.mem_map_of_mem member, ?_, ?_⟩
        · simp only [if_pos isActive]
        · simp only [if_pos isActive]
          rw [← visible]
          exact isTabHidden_congr rfl fun _ _ => rfl
      · intro tab member isEmpty
        have inIds : "" ∈ state.tabs.map Tab.id := by
          rw [← sameIds, ← isEmpty]
          exact List.mem_map_of_mem member
        have ⟨original, inTabs, isId⟩ := List.mem_map.1 inIds
        exact sound.named original inTabs isId
    · have isId : (newTab draw type path label target).id = draw.id := by
        unfold newTab
        rw [id_withTarget]
      rw [← isId] at isNamed isNew
      have appended := @sound_appended state
        { newTab draw type path label target with quireId := inheritedQuireId state type }
        (historyWith state type path draw.now) sound isNamed isNew (visible_inherited state type _)
      rw [isId] at appended
      exact appended

theorem sound_filtered {keeps : Tab → Bool} {active : Option String}
    {history : List OpenHistoryEntry}
    (activeIn : ActiveIn (state.tabs.filter keeps) state.quires active) :
    Sound (normalized { state with activeTabId := active, openHistory := history }
        (state.tabs.filter keeps) state.quires) := by
  refine sound_normalized ?_ activeIn ?_
  · exact sound.consistent.distinct.sublist (filter_sublist.map Tab.id)
  · exact fun tab member => sound.named tab (mem_of_mem_filter member)

theorem activeIn_filtered {keeps : Tab → Bool}
    (stays : ∀ tab ∈ state.tabs, some tab.id = state.activeTabId → keeps tab = true) :
    ActiveIn (state.tabs.filter keeps) state.quires state.activeTabId := by
  refine sound.consistent.active.mono fun tab member isActive visible => ?_
  exact ⟨tab, mem_filter.2 ⟨member, stays tab member isActive⟩, rfl, visible⟩

theorem sound_closeTab : Sound (closeTab state tabId) := by
  unfold closeTab
  split
  · exact sound
  · refine sound_filtered sound ?_
    split_ifs with isActive
    · exact activeIn_nearest _ _ _
    · refine activeIn_filtered sound fun tab _ isThis => ?_
      have other : tab.id ≠ tabId := fun same => isActive (by rw [← isThis, same])
      simpa using other

theorem sound_closeOtherTabs
    (ready : ∃ tab ∈ state.tabs, tab.id = tabId ∧ isTabHidden tab state.quires = false) :
    Sound (closeOtherTabs state tabId) := by
  unfold closeOtherTabs
  refine sound_filtered sound fun id isActive => ?_
  have ⟨tab, member, isId, visible⟩ := ready
  refine ⟨tab, mem_filter.2 ⟨member, by simpa using isId⟩, ?_, visible⟩
  rw [isId, some.inj isActive]

theorem sound_closeAllTabs : Sound (closeAllTabs state) := by
  unfold closeAllTabs
  split_ifs
  · exact sound
  · exact sound_normalized nodup_nil (activeIn_none _ _) fun _ member =>
      absurd member not_mem_nil

theorem truthy_active : truthy state.activeTabId = state.activeTabId := by
  cases isActive : state.activeTabId with
  | none => rfl
  | some id =>
    have ⟨tab, member, isId, _⟩ := sound.consistent.active id isActive
    have named : id ≠ "" := isId ▸ sound.named tab member
    simp [truthy, named]

theorem sound_closeArchivedPageTabs {pageId path : String} :
    Sound (closeArchivedPageTabs state pageId path) := by
  unfold closeArchivedPageTabs
  simp only [truthy_active sound]
  split_ifs
  · exact sound
  · refine sound_filtered sound ?_
    split
    · rename_i activeId isActive
      split_ifs with isRemoved
      · exact activeIn_nearest _ _ _
      · refine activeIn_filtered sound fun tab _ isThis => ?_
        rw [isActive] at isThis
        rw [some.inj isThis]
        simpa using isRemoved
    · rename_i noActive
      rw [noActive]
      exact activeIn_none _ _

omit sound

variable {quireId : String}

theorem sound_closeQuireTabs (sound : Sound state) : Sound (closeQuireTabs state quireId) := by
  unfold closeQuireTabs
  simp only [truthy_active sound]
  refine sound_filtered sound ?_
  split
  · rename_i activeId isActive
    split_ifs with isLeft
    · refine activeIn_filtered sound fun tab member isThis => ?_
      rw [isActive] at isThis
      obtain ⟨left, inLeft, sameId⟩ := List.mem_map.1 isLeft
      have sameTab : left = tab :=
        inj_on_of_nodup_map sound.consistent.distinct (mem_of_mem_filter inLeft) member
          (sameId.trans (some.inj isThis).symm)
      rw [← sameTab]
      exact (mem_filter.1 inLeft).2
    · exact activeIn_nearest _ _ _
  · rename_i noActive
    rw [noActive]
    exact activeIn_none _ _

theorem reinserted_perm (others : List Tab) (moved : Tab) (insertAt : Nat) :
    (others.take insertAt ++ moved :: others.drop insertAt).Perm (moved :: others) := by
  have middle : (others.take insertAt ++ moved :: others.drop insertAt).Perm
      (moved :: (others.take insertAt ++ others.drop insertAt)) := perm_middle
  rwa [take_append_drop] at middle

theorem sound_reinserted {source : Tab} {quireId : Option String} {insertAt : Nat} {quires : Quires}
    (sound : Sound state) (member : source ∈ state.tabs)
    (visible : some source.id = state.activeTabId →
      isTabHidden { source with quireId } quires = false)
    (sameQuires : some source.id ≠ state.activeTabId → quires = state.quires) :
    Sound (normalized state ((state.tabs.filter fun tab => tab.id ≠ source.id).take insertAt
          ++ { source with quireId }
            :: (state.tabs.filter fun tab => tab.id ≠ source.id).drop insertAt)
        quires) := by
  have reordered := reinserted_perm (state.tabs.filter fun tab => tab.id ≠ source.id)
    { source with quireId } insertAt
  apply sound_normalized
  · rw [(reordered.map Tab.id).nodup_iff, map_cons, nodup_cons]
    refine ⟨fun again => ?_, sound.consistent.distinct.sublist (filter_sublist.map Tab.id)⟩
    have ⟨tab, inOthers, isId⟩ := List.mem_map.1 again
    have other := (mem_filter.1 inOthers).2
    simp [isId] at other
  · refine sound.consistent.active.mono fun tab inTabs isActive isVisible => ?_
    by_cases isSource : tab.id = source.id
    · refine ⟨{ source with quireId }, reordered.mem_iff.2 mem_cons_self, isSource.symm, ?_⟩
      exact visible (by rw [← isSource, isActive])
    · refine ⟨tab, reordered.mem_iff.2 (mem_cons_of_mem _ ?_), rfl, ?_⟩
      · exact mem_filter.2 ⟨inTabs, by simpa using isSource⟩
      · rw [sameQuires fun isThis => isSource ?_]
        · exact isVisible
        · exact some.inj (isActive.trans isThis.symm)
  · intro tab inNew
    rcases mem_cons.1 (reordered.mem_iff.1 inNew) with isMoved | inOthers
    · rw [isMoved]
      exact sound.named source member
    · exact sound.named tab (mem_of_mem_filter inOthers)

theorem id_of_findIdx {tabs : List Tab} {index : Nat} {tab : Tab}
    (isIndex : tabs.findIdx? (fun tab => tab.id = tabId) = some index)
    (isTab : tabs[index]? = some tab) : tab.id = tabId := by
  have ⟨_, atIndex, _⟩ := findIdx?_eq_some_iff_getElem.1 isIndex
  have ⟨_, isThis⟩ := List.getElem?_eq_some_iff.1 isTab
  rw [← isThis]
  simpa using atIndex

theorem sound_moveTab {sourceTabId : String} {target : TabMoveTarget} (sound : Sound state) :
    Sound (moveTab state sourceTabId target) := by
  unfold moveTab
  split
  · exact sound
  · rename_i sourceIndex isIndex
    split
    · exact sound
    · rename_i source isSource
      have isId : source.id = sourceTabId := id_of_findIdx isIndex isSource
      have member : source ∈ state.tabs := mem_of_getElem? isSource
      simp only [← isId]
      split
      · exact sound
      · rename_i quireId insertAt _
        split_ifs with isActive same
        · exact sound
        · refine sound_reinserted sound member (fun _ => ?_) fun notActive => absurd isActive notActive
          exact (expand_cases state.quires quireId).2 _ rfl
        · exact sound
        · exact sound_reinserted sound member (fun isThis => absurd isThis isActive) fun _ => rfl

theorem sound_addTabToQuire (sound : Sound state) : Sound (addTabToQuire state tabId quireId) := by
  unfold addTabToQuire
  split
  · rename_i quire tab isQuire isTab
    have isId : tab.id = tabId := by simpa using find?_some isTab
    have member : tab ∈ state.tabs := mem_of_find?_eq_some isTab
    have quireIs : quire.id = quireId := Table.key_of_get isQuire
    simp only [← isId]
    split_ifs with already expands
    · exact sound
    · refine sound_reinserted sound member (fun _ => ?_) fun notActive => absurd expands.2 notActive
      unfold isTabHidden
      split
      · rfl
      · rename_i id named
        have isThis : quireId = id := by
          unfold Tab.quire at named
          exact some.inj (filter_eq_some_iff.1 named).1
        rw [collapsed_put, if_pos (by rw [← isThis, quireIs])]
    · refine sound_reinserted sound member (fun isActive => ?_) fun _ => rfl
      have notCollapsed : quire.collapsed = false := by
        by_contra collapsed
        exact expands ⟨by simpa using collapsed, isActive⟩
      unfold isTabHidden
      split
      · rfl
      · rename_i id named
        have isThis : quireId = id := by
          unfold Tab.quire at named
          exact some.inj (filter_eq_some_iff.1 named).1
        rw [← isThis]
        simp only [Quires.collapsed, isQuire, notCollapsed]
  · exact sound

theorem sound_regrouped {quires : Quires} (sound : Sound state)
    (sameId : ∀ tab, (change tab).id = tab.id)
    (visible : ∀ tab, isTabHidden tab state.quires = false → isTabHidden (change tab) quires = false) :
    Sound (normalized state (state.tabs.map change) quires) := by
  apply sound_normalized
  · have sameIds : (state.tabs.map change).map Tab.id = state.tabs.map Tab.id := by
      rw [List.map_map]
      exact map_congr_left fun tab _ => sameId tab
    rw [sameIds]
    exact sound.consistent.distinct
  · refine sound.consistent.active.mono fun tab member _ isVisible => ?_
    exact ⟨change tab, List.mem_map_of_mem member, sameId tab, visible tab isVisible⟩
  · intro tab member
    have ⟨original, inTabs, isTab⟩ := List.mem_map.1 member
    rw [← isTab, sameId]
    exact sound.named original inTabs

theorem sound_joined {quire : Quire} (sound : Sound state) (shown : quire.collapsed = false) : Sound
      (normalized state (state.tabs.map fun tab =>
          if tab.id = tabId then { tab with quireId := some quire.id } else tab)
        (state.quires.put quire)) := by
  have stays : ∀ id, state.quires.collapsed id = false → (state.quires.put quire).collapsed id = false := by
    intro id isShown
    rw [collapsed_put]
    split_ifs
    · exact shown
    · exact isShown
  refine sound_regrouped sound (fun tab => ?_) fun tab visible => ?_
  · split_ifs <;> rfl
  · unfold isTabHidden
    split
    · rfl
    · rename_i id named
      split_ifs at named with isThis
      · have isQuire : quire.id = id := by
          unfold Tab.quire at named
          exact some.inj (filter_eq_some_iff.1 named).1
        rw [collapsed_put, if_pos isQuire.symm]
        exact shown
      · apply stays
        unfold isTabHidden at visible
        rw [named] at visible
        exact visible

theorem sound_createQuire {name : String} (sound : Sound state) :
    Sound (createQuire draw state tabId name) := by
  unfold createQuire
  split
  · exact sound
  · rename_i tab _
    by_cases notPage : tab.type ≠ .page
    · rw [if_pos notPage]
      exact sound
    · rw [if_neg notPage]
      exact sound_joined sound rfl

theorem sound_removeTabFromQuire (sound : Sound state) :
    Sound (removeTabFromQuire state tabId) := by
  refine sound_regrouped sound (fun tab => ?_) fun tab visible => ?_
  · split_ifs <;> rfl
  · split_ifs
    · exact isTabHidden_loose rfl
    · exact visible

theorem sound_ungroupQuire (sound : Sound state) : Sound (ungroupQuire state quireId) := by
  refine sound_regrouped sound (fun tab => ?_) fun tab visible => ?_
  · split_ifs <;> rfl
  · split_ifs with isMember
    · exact isTabHidden_loose rfl
    · rw [← visible]
      refine isTabHidden_congr rfl fun id named => ?_
      have other : id ≠ quireId := by
        intro same
        unfold Tab.quire at named
        exact isMember (same ▸ (filter_eq_some_iff.1 named).1)
      simp only [Quires.collapsed, Quires.remove, Table.get_erase, if_neg other]

theorem sound_putQuire {quire changed : Quire} {active : Option String} (sound : Sound state)
    (isQuire : state.quires.get quire.id = some quire) (sameId : changed.id = quire.id)
    (activeIn : ActiveIn state.tabs (state.quires.put changed) active) :
    Sound { state with quires := state.quires.put changed, activeTabId := active } := by
  refine sound_of_sameOrder sound rfl rfl (fun id => ?_) activeIn
  exact isSome_put (by rw [sameId, isQuire]; rfl) id

theorem sound_changeQuire {change : Quire → Quire} (sound : Sound state)
    (sameId : ∀ quire, (change quire).id = quire.id)
    (sameCollapsed : ∀ quire, (change quire).collapsed = quire.collapsed) :
    Sound (changeQuire state quireId change) := by
  unfold changeQuire
  split
  · exact sound
  · rename_i quire found
    have isId : quire.id = quireId := Table.key_of_get found
    refine sound_putQuire sound (isId ▸ found) (sameId quire) ?_
    refine sound.consistent.active.mono fun tab member _ visible => ⟨tab, member, rfl, ?_⟩
    rw [← visible]
    refine isTabHidden_congr rfl fun id _ => ?_
    rw [collapsed_put]
    split_ifs with here
    · rw [sameCollapsed, here, sameId, isId]
      simp only [Quires.collapsed, found]
    · rfl

theorem activeTab_of_mem (sound : Sound state) {tab : Tab} (member : tab ∈ state.tabs)
    (isActive : some tab.id = state.activeTabId) : state.activeTab = some tab := by
  unfold WorkspaceState.activeTab
  cases found : state.tabs.find? fun tab => some tab.id = state.activeTabId with
  | none =>
    rw [find?_eq_none] at found
    exact absurd (by simpa using isActive) (found tab member)
  | some other =>
    have sameId : some other.id = state.activeTabId := by simpa using find?_some found
    have isTab : other = tab :=
      inj_on_of_nodup_map sound.consistent.distinct (mem_of_find?_eq_some found) member
        (some.inj (sameId.trans isActive.symm))
    rw [isTab]

theorem sound_toggleQuireCollapse (sound : Sound state) :
    Sound (toggleQuireCollapse state quireId) := by
  unfold toggleQuireCollapse
  split
  · exact sound
  · rename_i quire found
    have isId : quire.id = quireId := Table.key_of_get found
    have isQuire : state.quires.get quire.id = some quire := by
      rw [isId]
      exact found
    refine @sound_putQuire state quire _ _ sound isQuire rfl ?_
    -- the active tab is in the quire that collapses, or is seen as before
    have stays : (∀ tab ∈ state.tabs, some tab.id = state.activeTabId →
        ¬(quire.collapsed = false ∧ tab.quireId = some quireId)) →
        ActiveIn state.tabs (state.quires.put { quire with collapsed := !quire.collapsed })
          state.activeTabId := by
      intro notCollapsing
      refine sound.consistent.active.mono fun tab member isActive visible => ⟨tab, member, rfl, ?_⟩
      unfold isTabHidden at visible ⊢
      cases named : tab.quire with
      | none => rfl
      | some id =>
        rw [named] at visible
        simp only
        rw [collapsed_put]
        split_ifs with here
        · have isQuire : tab.quireId = some quireId := by
            unfold Tab.quire at named
            rw [(filter_eq_some_iff.1 named).1, here]
            exact congrArg some isId
          have collapsed : quire.collapsed = true := by
            by_contra isShown
            exact notCollapsing tab member isActive ⟨by simpa using isShown, isQuire⟩
          simp [collapsed]
        · exact visible
    cases isActiveTab : state.activeTab with
    | none =>
      simp only
      refine stays fun tab member isActive => ?_
      rw [activeTab_of_mem sound member isActive] at isActiveTab
      cases isActiveTab
    | some active =>
      simp only
      split_ifs with collapsing
      · exact activeIn_nearest _ _ _
      · refine stays fun tab member isActive => ?_
        rw [activeTab_of_mem sound member isActive] at isActiveTab
        rw [some.inj isActiveTab]
        exact collapsing

end Actions

theorem sound_perform {draw : Draw} {state : WorkspaceState} {action : Action} (sound : Sound state)
    (ready : Ready draw state action) : Sound (perform draw state action) := by
  cases action with
  | openTab type path label target => exact sound_openTab sound ready.1 ready.2
  | addTab tab => exact sound_appended sound ready.1 ready.2.1 ready.2.2
  | closeTab tabId => exact sound_closeTab sound
  | closeOtherTabs tabId => exact sound_closeOtherTabs sound ready
  | closeAllTabs => exact sound_closeAllTabs sound
  | closeArchivedPageTabs pageId path => exact sound_closeArchivedPageTabs sound
  | activateTab | activateTabFromHistory => exact sound_activatedTabState sound ready
  | clearActiveTab =>
    have unfocused : Sound { state with tabs := state.tabs.map withoutTabFocus } :=
      sound_map sound (fun _ => rfl) fun _ => rfl
    exact sound_of_sameOrder unfocused rfl rfl (fun _ => rfl) (activeIn_none _ _)
  | clearWorkspace =>
    refine ⟨⟨nodup_nil, fun id => ?_, fun id => ?_, activeIn_none _ _⟩, fun _ member => ?_⟩
    · exact ⟨[], 0, [], rfl, not_mem_nil, not_mem_nil⟩
    · simp [perform]
    · exact absurd member not_mem_nil
  | clearTabFocus | updateTabLabel => exact sound_mapTab sound (fun _ => rfl) fun _ => rfl
  | takeTabFocus tabId requestId =>
    show Sound (takeTabFocus state tabId requestId)
    unfold takeTabFocus
    split
    · exact sound
    · split_ifs
      · exact sound
      · exact sound_mapTab sound (fun _ => rfl) fun _ => rfl
  | moveTab sourceTabId target => exact sound_moveTab sound
  | setTabPageId tabId pageId =>
    show Sound (setTabPageId state tabId pageId)
    unfold setTabPageId
    split
    · exact sound
    · split_ifs
      · exact sound
      · exact sound_mapTab sound (fun _ => rfl) fun _ => rfl
  | updateTabPath tabId path label =>
    have moved : Sound (mapTab state tabId fun tab =>
        { tab with path := some path, label := label.getD tab.label }) :=
      sound_mapTab sound (fun _ => rfl) fun _ => rfl
    exact sound_of_sameOrder moved rfl rfl (fun _ => rfl) moved.consistent.active
  | setNavigationMode mode => exact sound_of_sameOrder sound rfl rfl (fun _ => rfl) sound.consistent.active
  | createQuire tabId name => exact sound_createQuire sound
  | addTabToQuire tabId quireId => exact sound_addTabToQuire sound
  | removeTabFromQuire tabId => exact sound_removeTabFromQuire sound
  | renameQuire | recolorQuire => exact sound_changeQuire sound (fun _ => rfl) fun _ => rfl
  | toggleQuireCollapse quireId => exact sound_toggleQuireCollapse sound
  | closeQuireTabs quireId => exact sound_closeQuireTabs sound
  | ungroupQuire quireId => exact sound_ungroupQuire sound

/-! ### Only closing removes tabs -/

def Action.closes : Action → Bool
  | .closeTab _ => true
  | .closeOtherTabs _ => true
  | .closeAllTabs => true
  | .closeArchivedPageTabs _ _ => true
  | .closeQuireTabs _ => true
  | .clearWorkspace => true
  | _ => false

section Keeps

variable {state : WorkspaceState} {draw : Draw}

def KeepsTabs (state next : WorkspaceState) : Prop :=
  ∀ id ∈ state.tabs.map Tab.id, id ∈ next.tabs.map Tab.id

theorem keepsTabs_refl : KeepsTabs state state := fun _ member => member

variable {next : WorkspaceState}

theorem keepsTabs_map {change : Tab → Tab} (isMap : next.tabs = state.tabs.map change)
    (sameId : ∀ tab, (change tab).id = tab.id) :
    KeepsTabs state next := by
  intro id member
  have ⟨tab, inTabs, isId⟩ := List.mem_map.1 member
  rw [isMap]
  refine List.mem_map.2 ⟨change tab, List.mem_map_of_mem inTabs, ?_⟩
  rw [sameId, isId]

theorem keepsTabs_normalized {tabs : List Tab} {quires : Quires}
    (keeps : ∀ id ∈ state.tabs.map Tab.id, id ∈ tabs.map Tab.id) :
    KeepsTabs state (normalized next tabs quires) :=
  fun id member => mem_ids_normalized.2 (keeps id member)

theorem mem_ids_map {tabs : List Tab} {change : Tab → Tab} (sameId : ∀ tab, (change tab).id = tab.id) :
    ∀ id ∈ tabs.map Tab.id, id ∈ (tabs.map change).map Tab.id := by
  intro id member
  have ⟨tab, inTabs, isId⟩ := List.mem_map.1 member
  exact List.mem_map.2 ⟨change tab, List.mem_map_of_mem inTabs, by rw [sameId, isId]⟩

theorem keepsTabs_reinserted {tab : Tab} {quires : Quires} {insertAt : Nat} :
    KeepsTabs state (normalized next
        ((state.tabs.filter fun other => other.id ≠ tab.id).take insertAt
          ++ tab :: (state.tabs.filter fun other => other.id ≠ tab.id).drop insertAt)
        quires) := by
  apply keepsTabs_normalized
  intro id member
  rw [((reinserted_perm _ tab insertAt).map Tab.id).mem_iff, map_cons, mem_cons]
  have ⟨other, inTabs, isId⟩ := List.mem_map.1 member
  by_cases isTab : other.id = tab.id
  · exact .inl (isId.symm.trans isTab)
  · exact .inr (List.mem_map.2 ⟨other, mem_filter.2 ⟨inTabs, by simpa using isTab⟩, isId⟩)

theorem keepsTabs_openTab {type : TabType} {path label : Option String}
    {target : Option OpenTabTarget} : KeepsTabs state (openTab draw state type path label target) := by
  unfold openTab
  split
  · refine keepsTabs_map rfl fun tab => ?_
    split_ifs
    · rw [id_withTarget]
    · rfl
  · simp only
    split_ifs
    · refine keepsTabs_normalized (mem_ids_map fun tab => ?_)
      split_ifs <;> rfl
    · apply keepsTabs_normalized
      intro id member
      rw [map_append]
      exact mem_append_left _ (@mem_ids_map state.tabs withoutTabFocus (fun _ => rfl) id member)

theorem keepsTabs_moveTab {sourceTabId : String} {target : TabMoveTarget} :
    KeepsTabs state (moveTab state sourceTabId target) := by
  unfold moveTab
  split
  · exact keepsTabs_refl
  · rename_i sourceIndex isIndex
    split
    · exact keepsTabs_refl
    · rename_i source isSource
      have isId : source.id = sourceTabId := id_of_findIdx isIndex isSource
      simp only [← isId]
      split
      · exact keepsTabs_refl
      · rename_i quireId insertAt _
        split_ifs
        all_goals first
          | exact keepsTabs_refl
          | exact @keepsTabs_reinserted state state { source with quireId } _ insertAt

theorem keepsTabs_addTabToQuire {tabId quireId : String} :
    KeepsTabs state (addTabToQuire state tabId quireId) := by
  unfold addTabToQuire
  split
  · rename_i quire tab _ isTab
    have isId : tab.id = tabId := by simpa using find?_some isTab
    simp only [← isId]
    by_cases already : tab.type ≠ .page ∨ tab.quireId = some quireId
    · rw [if_pos already]
      exact keepsTabs_refl
    · rw [if_neg already]
      exact @keepsTabs_reinserted state state { tab with quireId := some quireId } _ _
  · exact keepsTabs_refl

theorem keepsTabs_mapTab {tabId : String} {change : Tab → Tab}
    (sameId : ∀ tab, (change tab).id = tab.id) : KeepsTabs state (mapTab state tabId change) := by
  refine keepsTabs_map rfl fun tab => ?_
  split_ifs
  · exact sameId tab
  · rfl

theorem keepsTabs_perform {action : Action} (keeps : action.closes = false) :
    KeepsTabs state (perform draw state action) := by
  cases action with
  | openTab type path label target => exact keepsTabs_openTab
  | addTab tab =>
    apply keepsTabs_normalized
    intro id member
    rw [map_append]
    exact mem_append_left _ (@mem_ids_map state.tabs withoutTabFocus (fun _ => rfl) id member)
  | activateTab | activateTabFromHistory =>
    refine keepsTabs_map rfl fun tab => ?_
    split_ifs <;> rfl
  | clearActiveTab => exact keepsTabs_map rfl fun _ => rfl
  | clearTabFocus | updateTabLabel => exact keepsTabs_mapTab fun _ => rfl
  | takeTabFocus tabId requestId =>
    show KeepsTabs state (takeTabFocus state tabId requestId)
    unfold takeTabFocus
    split
    · exact keepsTabs_refl
    · split_ifs
      · exact keepsTabs_refl
      · exact keepsTabs_mapTab fun _ => rfl
  | moveTab sourceTabId target => exact keepsTabs_moveTab
  | setTabPageId tabId pageId =>
    show KeepsTabs state (setTabPageId state tabId pageId)
    unfold setTabPageId
    split
    · exact keepsTabs_refl
    · split_ifs
      · exact keepsTabs_refl
      · exact keepsTabs_mapTab fun _ => rfl
  | updateTabPath tabId path label =>
    have moved : KeepsTabs state (mapTab state tabId fun tab =>
        { tab with path := some path, label := label.getD tab.label }) :=
      keepsTabs_mapTab fun _ => rfl
    exact moved
  | setNavigationMode mode => exact keepsTabs_refl
  | createQuire tabId name =>
    show KeepsTabs state (createQuire draw state tabId name)
    unfold createQuire
    split
    · exact keepsTabs_refl
    · rename_i tab _
      by_cases notPage : tab.type ≠ .page
      · rw [if_pos notPage]
        exact keepsTabs_refl
      · rw [if_neg notPage]
        refine keepsTabs_normalized (mem_ids_map fun tab => ?_)
        split_ifs <;> rfl
  | addTabToQuire tabId quireId => exact keepsTabs_addTabToQuire
  | removeTabFromQuire | ungroupQuire =>
    refine keepsTabs_normalized (mem_ids_map fun tab => ?_)
    split_ifs <;> rfl
  | renameQuire quireId name | recolorQuire quireId color =>
    show KeepsTabs state (changeQuire state quireId _)
    unfold changeQuire
    split <;> exact keepsTabs_refl
  | toggleQuireCollapse quireId =>
    show KeepsTabs state (toggleQuireCollapse state quireId)
    unfold toggleQuireCollapse
    split <;> exact keepsTabs_refl
  | closeTab | closeOtherTabs | closeAllTabs | closeArchivedPageTabs | closeQuireTabs
  | clearWorkspace => cases keeps

end Keeps

/-! ### Runs -/

def runningAction (store : Store) : Step → Option (Action × Draw)
  | .call action draw defers =>
    if asksGuard store.workspace action && defers then none else some (action, draw)
  | .resume index draw => (store.deferred[index]?).map fun action => (action, draw)

def RunsReady (store : Store) (taken : Step) : Prop :=
  ∀ action draw, runningAction store taken = some (action, draw) → Ready draw store.workspace action

instance (store : Store) (taken : Step) : Decidable (RunsReady store taken) :=
  match running : runningAction store taken with
  | none => isTrue fun _ _ isRunning => nomatch running.symm.trans isRunning
  | some (action, draw) =>
    decidable_of_iff (Ready draw store.workspace action) ⟨fun ready other otherDraw isRunning => by
          obtain ⟨rfl, rfl⟩ := Prod.mk.inj (some.inj (running.symm.trans isRunning))
          exact ready,
        fun ready => ready action draw running⟩

/-- A tab that is activated or kept is open, and an added one is new and not in a collapsed quire. -/
def AllowedAtCall (store : Store) : Step → Prop
  | .call (.closeOtherTabs tabId) _ _ => tabId ∈ store.workspace.tabs.map Tab.id
  | .call action draw _ => Ready draw store.workspace action
  | .resume _ draw => draw.id ≠ "" ∧ draw.id ∉ store.workspace.tabs.map Tab.id

instance (store : Store) (taken : Step) : Decidable (AllowedAtCall store taken) := by
  unfold AllowedAtCall
  split <;> infer_instance

theorem step_cases {store next : Store} {taken : Step} (steps : step store taken = some next) :
    (runningAction store taken = none ∧ next.workspace = store.workspace)
      ∨ ∃ action draw, runningAction store taken = some (action, draw)
        ∧ next.workspace = perform draw store.workspace action := by
  cases taken with
  | call action draw defers =>
    simp only [step] at steps
    simp only [runningAction]
    by_cases kept : (asksGuard store.workspace action && defers) = true
    · rw [if_pos kept] at steps
      rw [if_pos kept, ← some.inj steps]
      exact .inl ⟨rfl, rfl⟩
    · rw [if_neg kept] at steps
      rw [if_neg kept, ← some.inj steps]
      exact .inr ⟨action, draw, rfl, rfl⟩
  | resume index draw =>
    simp only [step] at steps
    cases found : store.deferred[index]? with
    | none => simp only [found, reduceCtorEq] at steps
    | some action =>
      simp only [found] at steps
      rw [← some.inj steps]
      exact .inr ⟨action, draw, by simp only [runningAction, found, map_some], rfl⟩

theorem sound_initial : Sound WorkspaceState.initial := by
  refine ⟨⟨nodup_nil, fun id => ?_, fun id => ?_, activeIn_none _ _⟩, fun _ member => ?_⟩
  · exact ⟨[], 0, [], rfl, not_mem_nil, not_mem_nil⟩
  · simp [WorkspaceState.initial]
  · exact absurd member not_mem_nil

/-- While every action is ready for its state, the tabs stay consistent; only closing removes one. -/
theorem workspace_stays_consistent {steps : List Step} {final : Store}
    (ready : Throughout step RunsReady Store.initial steps)
    (runs : run step Store.initial steps = some final) :
    Consistent final.workspace ∧ ∀ taken next, step final taken = some next →
        (∀ action draw, runningAction final taken = some (action, draw) → action.closes = false) →
        KeepsTabs final.workspace next.workspace := by
  have keeps : ∀ store taken next, Sound store.workspace → RunsReady store taken →
      step store taken = some next → Sound next.workspace := by
    intro store taken next sound isReady stepped
    rcases step_cases stepped with ⟨_, same⟩ | ⟨action, draw, isRunning, performs⟩
    · rw [same]
      exact sound
    · rw [performs]
      exact sound_perform sound (isReady action draw isRunning)
  refine ⟨(invariant_of_throughout keeps sound_initial ready runs).consistent, ?_⟩
  intro taken next stepped notClosing
  rcases step_cases stepped with ⟨_, same⟩ | ⟨action, draw, isRunning, performs⟩
  · rw [same]
    exact keepsTabs_refl
  · rw [performs]
    exact keepsTabs_perform (notClosing action draw isRunning)

def closedWhileWaiting : List Step :=
  [.call (.openTab .page (some "a") none none) ⟨1, "1", "r1"⟩ false,
    .call (.openTab .page (some "b") none none) ⟨2, "2", "r2"⟩ false,
    .call (.activateTab "1") ⟨3, "3", "r3"⟩ true,
    .call (.closeTab "1") ⟨4, "4", "r4"⟩ false,
    .resume 0 ⟨5, "5", "r5"⟩]

def quireOfTwo : List Step := [.call (.openTab .page (some "a") none none) ⟨1, "1", "r1"⟩ false,
    .call (.createQuire "1" " notes ") ⟨2, "q", "r2"⟩ false,
    .call (.openTab .page (some "b") none none) ⟨3, "2", "r3"⟩ false,
    .call (.openTab .graph none none none) ⟨4, "3", "r4"⟩ false,
    .call (.toggleQuireCollapse "q") ⟨5, "5", "r5"⟩ false,
    .call (.activateTab "1") ⟨6, "6", "r6"⟩ true,
    .call (.closeTab "3") ⟨7, "7", "r7"⟩ false,
    .resume 0 ⟨8, "8", "r8"⟩]

def tabsAfter (steps : List Step) : Option (List String × Option String) :=
  (run step Store.initial steps).map fun store =>
    (store.workspace.tabs.map Tab.id, store.workspace.activeTabId)

theorem workspace_stays_consistent_quire : Throughout step RunsReady Store.initial quireOfTwo
      ∧ ∃ final, run step Store.initial quireOfTwo = some final
        ∧ final.workspace.activeTabId = some "1" ∧ Consistent final.workspace := by
  have ready : Throughout step RunsReady Store.initial quireOfTwo := by decide
  have after : tabsAfter quireOfTwo = some (["1", "2"], some "1") := by decide
  have ⟨final, runs, tabs⟩ := map_eq_some_iff.1 after
  exact ⟨ready, final, runs, (Prod.mk.inj tabs).2, (workspace_stays_consistent ready runs).1⟩

/-- A tab that is closed while its activation waits is active afterwards. -/
theorem deferred_activation_dangles :
    ¬∀ (steps : List Step) (final : Store), Throughout step AllowedAtCall Store.initial steps →
      run step Store.initial steps = some final → Consistent final.workspace := by
  intro always
  have allowed : Throughout step AllowedAtCall Store.initial closedWhileWaiting := by
    decide
  have after : tabsAfter closedWhileWaiting = some (["2"], some "1") := by decide
  have ⟨final, runs, tabs⟩ := map_eq_some_iff.1 after
  have ⟨areTabs, isActive⟩ := Prod.mk.inj tabs
  have ⟨tab, member, isId, _⟩ := (always _ final allowed runs).active "1" isActive
  have inIds : tab.id ∈ final.workspace.tabs.map Tab.id := List.mem_map_of_mem member
  rw [areTabs, isId] at inIds
  exact absurd inIds (by decide)

end Clepsydra.Workspace
