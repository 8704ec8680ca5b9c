import Clepsydra.Library.JsText
import Clepsydra.Library.Transitions
import Clepsydra.Workspace.Quires

/-!
Owns: the workspace store with every action on it. An action that leaves the active tab asks
a guard first, which may run it at once or keep it and run it later, on the state it then finds.
-/

namespace Clepsydra.Workspace

open Library Library.Transitions

/-! ### State -/

inductive NavigationMode where
  | replace
  | new
  | smart
deriving DecidableEq

structure OpenHistoryEntry where
  path : String
  openedAt : Nat

structure OpenTabTarget where
  blockId : Option String
  heading : Option String
  newTab : Bool

/-- `TabMoveTarget`. -/
inductive TabMoveTarget where
  | tab (tabId : String) (after : Bool)
  | quire (quireId : String)
  | last

structure WorkspaceState where
  tabs : List Tab
  activeTabId : Option String
  navigationMode : NavigationMode
  openHistory : List OpenHistoryEntry
  quires : Quires

def WorkspaceState.initial : WorkspaceState := ⟨[], none, .smart, [], Table.empty⟩

inductive Action where
  | openTab (type : TabType) (path label : Option String) (target : Option OpenTabTarget)
  | addTab (tab : Tab)
  | closeTab (tabId : String)
  | closeOtherTabs (tabId : String)
  | closeAllTabs
  | closeArchivedPageTabs (pageId path : String)
  | activateTab (tabId : String)
  | activateTabFromHistory (tabId : String)
  | clearActiveTab
  | clearWorkspace
  | clearTabFocus (tabId : String)
  | takeTabFocus (tabId requestId : String)
  | moveTab (sourceTabId : String) (target : TabMoveTarget)
  | updateTabLabel (tabId label : String)
  | setTabPageId (tabId pageId : String)
  | updateTabPath (tabId path : String) (label : Option String)
  | setNavigationMode (mode : NavigationMode)
  | createQuire (tabId name : String)
  | addTabToQuire (tabId quireId : String)
  | removeTabFromQuire (tabId : String)
  | renameQuire (quireId name : String)
  | recolorQuire (quireId : String) (color : QuireColor)
  | toggleQuireCollapse (quireId : String)
  | closeQuireTabs (quireId : String)
  | ungroupQuire (quireId : String)

structure Draw where
  now : Nat
  id : String
  requestId : String

/-! ### Helpers -/

def openHistoryCap : Nat := 32

/-- `pushOpenHistory`. -/
def pushOpenHistory (history : List OpenHistoryEntry) (path : String) (now : Nat) :
    List OpenHistoryEntry :=
  (⟨path, now⟩ :: history.filter fun entry => entry.path ≠ path).take openHistoryCap

/-- `selectActiveTab`. -/
def WorkspaceState.activeTab (state : WorkspaceState) : Option Tab :=
  state.tabs.find? fun tab => some tab.id = state.activeTabId

def WorkspaceState.tab (state : WorkspaceState) (tabId : String) : Option Tab :=
  state.tabs.find? fun tab => tab.id = tabId

/-- `tabKey`; a path that is not there reads `undefined`. -/
def tabKey (type : TabType) (path : Option String) : String :=
  match type with
  | .graph => "graph"
  | .page => "page:" ++ path.getD "undefined"

/-- `withoutTabFocus`. -/
def withoutTabFocus (tab : Tab) : Tab :=
  { tab with focusBlockId := none, focusHeading := none, focusRequestId := none }

def truthy (text : Option String) : Option String := text.filter (· ≠ "")

def Quires.expand (quires : Quires) (id : Option String) : Quires :=
  match (truthy id).bind quires.get with
  | some quire => if quire.collapsed then quires.put { quire with collapsed := false } else quires
  | none => quires

def historyWith (state : WorkspaceState) (type : TabType) (path : Option String) (now : Nat) :
    List OpenHistoryEntry :=
  match type, truthy path with
  | .page, some path => pushOpenHistory state.openHistory path now
  | _, _ => state.openHistory

/-- `activatedTabState`. -/
def activatedTabState (state : WorkspaceState) (tabId : String) (now : Nat) : WorkspaceState :=
  let tab := state.tab tabId
  { state with
    activeTabId := some tabId
    tabs := state.tabs.map fun candidate =>
      if candidate.id = tabId then { candidate with lastActiveAt := some now }
      else withoutTabFocus candidate
    quires := state.quires.expand (tab.bind Tab.quireId)
    openHistory := match tab with
      | some tab => historyWith state tab.type tab.path now
      | none => state.openHistory }

/-- `normalized`: new tabs and quires, put in order. -/
def normalized (state : WorkspaceState) (tabs : List Tab) (quires : Quires) : WorkspaceState :=
  let ordered := normalizeQuires tabs quires
  { state with tabs := ordered.1, quires := ordered.2 }

/-! ### Opening -/

def withTarget (type : TabType) (tab : Tab) (target : Option OpenTabTarget) (requestId : String) :
    Tab :=
  let blockId := target.bind OpenTabTarget.blockId
  let heading := target.bind OpenTabTarget.heading
  if type = .page then
    { tab with
      focusBlockId := blockId
      focusHeading := heading
      focusRequestId :=
        if (truthy blockId).isSome ∨ (truthy heading).isSome then some requestId else none }
  else { tab with focusBlockId := none, focusHeading := none, focusRequestId := none }

/-- `openTab` on a tab that is there. -/
def focusTab (draw : Draw) (state : WorkspaceState) (existing : Tab)
    (target : Option OpenTabTarget) : WorkspaceState :=
  { state with
    activeTabId := some existing.id
    tabs := state.tabs.map fun tab =>
      if tab.id = existing.id then
        withTarget existing.type { tab with lastActiveAt := some draw.now } target draw.requestId
      else withoutTabFocus tab
    quires := state.quires.expand existing.quireId
    openHistory := historyWith state existing.type existing.path draw.now }

/-- The tab that `openTab` makes. -/
def newTab (draw : Draw) (type : TabType) (path label : Option String)
    (target : Option OpenTabTarget) : Tab :=
  withTarget type
    { id := draw.id, type, pageId := none, path := if type = .page then path else none,
      label := (label.or path).getD "Graph", lastActiveAt := some draw.now, quireId := none,
      focusBlockId := none, focusHeading := none, focusRequestId := none }
    target draw.requestId

def inheritedQuireId (state : WorkspaceState) (type : TabType) : Option String :=
  match state.activeTab with
  | none => none
  | some active =>
    if type = .page ∧ active.type = .page ∧ isTabHidden active state.quires = false then
      active.quireId
    else none

def findExisting (state : WorkspaceState) (type : TabType) (path : Option String) : Option Tab :=
  state.tabs.find? fun tab => tabKey tab.type tab.path = tabKey type path

def openTab (draw : Draw) (state : WorkspaceState) (type : TabType) (path label : Option String)
    (target : Option OpenTabTarget) : WorkspaceState :=
  match findExisting state type path with
  | some existing => focusTab draw state existing target
  | none =>
    let made := newTab draw type path label target
    let history := historyWith state type path draw.now
    if state.navigationMode = .replace ∧ (truthy state.activeTabId).isSome
        ∧ (target.map OpenTabTarget.newTab) ≠ some true then
      -- the slot of the active tab keeps its id and its quire
      normalized { state with openHistory := history } (state.tabs.map fun tab =>
          if some tab.id = state.activeTabId then { made with id := tab.id, quireId := tab.quireId }
          else withoutTabFocus tab)
        state.quires
    else
      normalized { state with openHistory := history, activeTabId := some draw.id }
        (state.tabs.map withoutTabFocus ++ [{ made with quireId := inheritedQuireId state type }])
        state.quires

def addTab (state : WorkspaceState) (tab : Tab) : WorkspaceState :=
  normalized { state with activeTabId := some tab.id } (state.tabs.map withoutTabFocus ++ [tab])
    state.quires

/-! ### Closing -/

def closeTab (state : WorkspaceState) (tabId : String) : WorkspaceState :=
  match state.tabs.findIdx? fun tab => tab.id = tabId with
  | none => state
  | some index =>
    let next := state.tabs.filter fun tab => tab.id ≠ tabId
    let active :=
      if state.activeTabId = some tabId then
        nearestVisibleTabId next state.quires (min index (next.length - 1))
      else state.activeTabId
    normalized { state with activeTabId := active } next state.quires

def closeOtherTabs (state : WorkspaceState) (tabId : String) : WorkspaceState :=
  normalized { state with activeTabId := some tabId }
    (state.tabs.filter fun tab => tab.id = tabId) state.quires

def closeAllTabs (state : WorkspaceState) : WorkspaceState :=
  if state.tabs = [] then state else normalized { state with activeTabId := none } [] state.quires

def isArchived (pageId path : String) (tab : Tab) : Bool :=
  tab.type = .page && (tab.pageId = some pageId || tab.path = some path)

def closeArchivedPageTabs (state : WorkspaceState) (pageId path : String) : WorkspaceState :=
  let removed := state.tabs.filter (isArchived pageId path)
  if removed = [] then state
  else
    let removedIds := removed.map Tab.id
    let removedPaths := path :: removed.filterMap Tab.path
    let next := state.tabs.filter fun tab => tab.id ∉ removedIds
    let first := state.tabs.findIdx fun tab => tab.id ∈ removedIds
    let active :=
      match truthy state.activeTabId with
      | some activeId =>
        if activeId ∈ removedIds then
          nearestVisibleTabId next state.quires (min first (next.length - 1))
        else state.activeTabId
      | none => state.activeTabId
    normalized { state with
        activeTabId := active
        openHistory := state.openHistory.filter fun entry => entry.path ∉ removedPaths }
      next state.quires

def closeQuireTabs (state : WorkspaceState) (quireId : String) : WorkspaceState :=
  let first := (state.tabs.findIdx? fun tab => tab.quireId = some quireId).getD 0
  let next := state.tabs.filter fun tab => tab.quireId ≠ some quireId
  let active :=
    match truthy state.activeTabId with
    | some activeId =>
      if activeId ∈ next.map Tab.id then state.activeTabId
      else nearestVisibleTabId next state.quires (min first (next.length - 1))
    | none => state.activeTabId
  normalized { state with activeTabId := active } next state.quires

/-! ### Moving and quires -/

def moveDestination (state : WorkspaceState) (others : List Tab) (sourceTabId : String)
    (sourceIndex : Nat) : TabMoveTarget → Option (Option String × Nat)
  | .tab tabId after =>
    if tabId = sourceTabId then none
    else
      match others.findIdx? fun tab => tab.id = tabId with
      | none => none
      | some index =>
        some ((others[index]?).bind Tab.quireId, index + if after then 1 else 0)
  | .quire quireId =>
    if (state.quires.get quireId).isNone then none
    else
      match others.reverse.findIdx? fun tab => tab.quireId = some quireId with
      | none => some (some quireId, min sourceIndex others.length)
      | some behind => some (some quireId, others.length - behind)
  | .last => some (none, others.length)

def moveTab (state : WorkspaceState) (sourceTabId : String) (target : TabMoveTarget) :
    WorkspaceState :=
  match state.tabs.findIdx? fun tab => tab.id = sourceTabId with
  | none => state
  | some sourceIndex =>
    match state.tabs[sourceIndex]? with
    | none => state
    | some source =>
      let others := state.tabs.filter fun tab => tab.id ≠ sourceTabId
      match moveDestination state others sourceTabId sourceIndex target with
      | none => state
      | some (quireId, insertAt) =>
        let moved := { source with quireId }
        let tabs := others.take insertAt ++ moved :: others.drop insertAt
        let expands := some sourceTabId = state.activeTabId
        let quires := if expands then state.quires.expand quireId else state.quires
        if tabs = state.tabs ∧ quires.rows = state.quires.rows then state
        else normalized state tabs quires

def createQuire (draw : Draw) (state : WorkspaceState) (tabId name : String) : WorkspaceState :=
  match state.tab tabId with
  | none => state
  | some tab =>
    if tab.type ≠ .page then state
    else
      let name := if jsTrim name = "" then "QUIRE" else jsTrim name
      let quire : Quire := ⟨draw.id, name, nextQuireColor state.quires, false⟩
      normalized state
        (state.tabs.map fun tab => if tab.id = tabId then { tab with quireId := some draw.id } else tab)
        (state.quires.put quire)

def addTabToQuire (state : WorkspaceState) (tabId quireId : String) : WorkspaceState :=
  match state.quires.get quireId, state.tab tabId with
  | some quire, some tab =>
    if tab.type ≠ .page ∨ tab.quireId = some quireId then state
    else
      let others := state.tabs.filter fun tab => tab.id ≠ tabId
      let insertAt :=
        match others.reverse.findIdx? fun tab => tab.quireId = some quireId with
        | none => others.length
        | some behind => others.length - behind
      normalized state
        (others.take insertAt ++ { tab with quireId := some quireId } :: others.drop insertAt)
        (if quire.collapsed ∧ some tabId = state.activeTabId then
          state.quires.put { quire with collapsed := false }
        else state.quires)
  | _, _ => state

def removeTabFromQuire (state : WorkspaceState) (tabId : String) : WorkspaceState :=
  normalized state
    (state.tabs.map fun tab => if tab.id = tabId then { tab with quireId := none } else tab)
    state.quires

def changeQuire (state : WorkspaceState) (quireId : String) (change : Quire → Quire) :
    WorkspaceState :=
  match state.quires.get quireId with
  | none => state
  | some quire => { state with quires := state.quires.put (change quire) }

def renameQuire (state : WorkspaceState) (quireId name : String) : WorkspaceState :=
  changeQuire state quireId fun quire =>
    { quire with name := if jsTrim name = "" then quire.name else jsTrim name }

def recolorQuire (state : WorkspaceState) (quireId : String) (color : QuireColor) :
    WorkspaceState :=
  changeQuire state quireId fun quire => { quire with color }

def toggleQuireCollapse (state : WorkspaceState) (quireId : String) : WorkspaceState :=
  match state.quires.get quireId with
  | none => state
  | some quire =>
    let quires := state.quires.put { quire with collapsed := !quire.collapsed }
    let active :=
      match state.activeTab with
      | none => state.activeTabId
      | some active =>
        if quire.collapsed = false ∧ active.quireId = some quireId then
          nearestVisibleTabId state.tabs quires (state.tabs.findIdx fun tab => tab.id = active.id)
        else state.activeTabId
    { state with quires, activeTabId := active }

def ungroupQuire (state : WorkspaceState) (quireId : String) : WorkspaceState := normalized state
    (state.tabs.map fun tab =>
      if tab.quireId = some quireId then { tab with quireId := none } else tab)
    (state.quires.remove quireId)

/-! ### Other changes -/

def mapTab (state : WorkspaceState) (tabId : String) (change : Tab → Tab) : WorkspaceState :=
  { state with tabs := state.tabs.map fun tab => if tab.id = tabId then change tab else tab }

def takeTabFocus (state : WorkspaceState) (tabId requestId : String) : WorkspaceState :=
  match state.tab tabId with
  | none => state
  | some tab =>
    if tab.focusRequestId ≠ some requestId ∨ (tab.focusBlockId.isNone ∧ tab.focusHeading.isNone) then
      state
    else mapTab state tabId withoutTabFocus

def setTabPageId (state : WorkspaceState) (tabId pageId : String) : WorkspaceState :=
  match state.tab tabId with
  | none => state
  | some tab =>
    if tab.type ≠ .page ∨ tab.pageId = some pageId then state
    else mapTab state tabId fun tab => { tab with pageId := some pageId }

def updateTabPath (draw : Draw) (state : WorkspaceState) (tabId path : String)
    (label : Option String) : WorkspaceState :=
  let history :=
    match state.tab tabId with
    | none => state.openHistory
    | some tab =>
      match tab.type, truthy tab.path with
      | .page, some oldPath =>
        if oldPath ≠ path then
          pushOpenHistory (state.openHistory.filter fun entry => entry.path ≠ oldPath) path draw.now
        else state.openHistory
      | _, _ => state.openHistory
  { mapTab state tabId fun tab =>
      { tab with path := some path, label := label.getD tab.label } with
    openHistory := history }

/-! ### Actions -/

def perform (draw : Draw) (state : WorkspaceState) : Action → WorkspaceState
  | .openTab type path label target => openTab draw state type path label target
  | .addTab tab => addTab state tab
  | .closeTab tabId => closeTab state tabId
  | .closeOtherTabs tabId => closeOtherTabs state tabId
  | .closeAllTabs => closeAllTabs state
  | .closeArchivedPageTabs pageId path => closeArchivedPageTabs state pageId path
  | .activateTab tabId => activatedTabState state tabId draw.now
  | .activateTabFromHistory tabId => activatedTabState state tabId draw.now
  | .clearActiveTab => { state with activeTabId := none, tabs := state.tabs.map withoutTabFocus }
  | .clearWorkspace =>
    { state with tabs := [], activeTabId := none, openHistory := [], quires := Table.empty }
  | .clearTabFocus tabId => mapTab state tabId withoutTabFocus
  | .takeTabFocus tabId requestId => takeTabFocus state tabId requestId
  | .moveTab sourceTabId target => moveTab state sourceTabId target
  | .updateTabLabel tabId label => mapTab state tabId fun tab => { tab with label }
  | .setTabPageId tabId pageId => setTabPageId state tabId pageId
  | .updateTabPath tabId path label => updateTabPath draw state tabId path label
  | .setNavigationMode mode => { state with navigationMode := mode }
  | .createQuire tabId name => createQuire draw state tabId name
  | .addTabToQuire tabId quireId => addTabToQuire state tabId quireId
  | .removeTabFromQuire tabId => removeTabFromQuire state tabId
  | .renameQuire quireId name => renameQuire state quireId name
  | .recolorQuire quireId color => recolorQuire state quireId color
  | .toggleQuireCollapse quireId => toggleQuireCollapse state quireId
  | .closeQuireTabs quireId => closeQuireTabs state quireId
  | .ungroupQuire quireId => ungroupQuire state quireId

/-- Whether a call goes through `runWorkspaceTransition`. -/
def asksGuard (state : WorkspaceState) : Action → Bool
  | .openTab type path _ _ =>
    match findExisting state type path with
    | none => true
    | some existing => some existing.id ≠ state.activeTabId
  | .addTab tab => some tab.id ≠ state.activeTabId
  | .closeTab tabId => (state.tab tabId).isSome && state.activeTabId = some tabId
  | .closeOtherTabs tabId => state.activeTabId ≠ some tabId
  | .closeAllTabs => state.tabs ≠ [] && state.activeTabId.isSome
  | .activateTab tabId => state.activeTabId ≠ some tabId
  | .clearActiveTab => state.activeTabId.isSome
  | .updateTabPath tabId path _ =>
    match state.tab tabId with
    | none => false
    | some tab => some tab.id = state.activeTabId && tab.path ≠ some path
  | .toggleQuireCollapse quireId =>
    ((state.quires.get quireId).map Quire.collapsed = some false)
      && ((state.activeTab.bind Tab.quireId) = some quireId)
  | .closeQuireTabs quireId => (state.activeTab.bind Tab.quireId) = some quireId
  | _ => false

structure Store where
  workspace : WorkspaceState
  deferred : List Action

inductive Step where
  | call (action : Action) (draw : Draw) (defers : Bool)
  | resume (index : Nat) (draw : Draw)

def step (store : Store) : Step → Option Store
  | .call action draw defers =>
    if asksGuard store.workspace action && defers then
      some { store with deferred := store.deferred ++ [action] }
    else some { store with workspace := perform draw store.workspace action }
  | .resume index draw =>
    match store.deferred[index]? with
    | none => none
    | some action =>
      some ⟨perform draw store.workspace action, store.deferred.eraseIdx index⟩

def Store.initial : Store := ⟨.initial, []⟩

end Clepsydra.Workspace
