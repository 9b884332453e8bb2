import KeyReader.Workspace.Host

/-! The tabs of a window and the operations on them.  Where the source panics the result is `none`.
Docks, animations, scrolling and warnings are left out. -/

namespace KeyReader.Workspace

/-- What a reader was told to open. -/
structure PdfReader where
  openPath : Option PathBuf
  deriving DecidableEq

inductive WorkspaceContent
  | pdf (reader : PdfReader)
  | settings
  deriving DecidableEq

structure WorkspaceViewSlot where
  item : Option WorkspaceItemDescriptor
  view : WorkspaceViewDescriptor
  content : WorkspaceContent

/-- The reader of the slot has a comment that is neither saved nor discarded. -/
def WorkspaceViewSlot.hasDraft (slot : WorkspaceViewSlot) (drafts : ViewId → Bool) : Bool :=
  match slot.content with
  | .pdf _ => drafts slot.view.id
  | .settings => false

structure WorkspaceTab where
  layout : WorkspaceTabLayout
  views : List WorkspaceViewSlot

structure WorkspaceWindow where
  id : WindowId
  tabs : List WorkspaceTab
  activeTab : Nat

namespace WorkspaceTab

def single (id : TabId) (slot : WorkspaceViewSlot) : WorkspaceTab :=
  ⟨.single id slot.view.id, [slot]⟩

section

variable (tab : WorkspaceTab)

def slot (view : ViewId) : Option WorkspaceViewSlot :=
  tab.views.find? (·.view.id = view)

def activeSlot : Option WorkspaceViewSlot := tab.slot tab.layout.activeView

def containsView (view : ViewId) : Bool := (tab.slot view).isSome

def visibleViews (tab : WorkspaceTab) : List ViewId := tab.layout.visibleViews

def splitViews : Option (ViewId × ViewId × ℚ) :=
  match tab.layout.content with
  | .split _ ratio (.view first) (.view second) => some (first, second, ratio)
  | _ => none

def isSplit : Bool := tab.splitViews.isSome

/-- `tab.layout.content = content`. -/
def place (content : ContentPlacement) : WorkspaceTab :=
  { tab with layout := { tab.layout with content } }

def setSplitRatio (ratio : ℚ) : WorkspaceTab :=
  match tab.layout.content with
  | .split axis _ first second =>
    tab.place (.split axis (clampRatio ratio (1 / 5) (4 / 5)) first second)
  | _ => tab

def hasDraft (tab : WorkspaceTab) (drafts : ViewId → Bool) : Bool :=
  tab.views.any (·.hasDraft drafts)

/-- `tab.layout.active_view = view`. -/
def activate (view : ViewId) : WorkspaceTab :=
  { tab with layout := { tab.layout with activeView := view } }

def openSlot (slot : WorkspaceViewSlot) : WorkspaceTab where
  layout := { tab.layout with activeView := slot.view.id, content := .view slot.view.id }
  views := tab.views.set (tab.views.findIdx (·.view.id = tab.layout.activeView)) slot

end

end WorkspaceTab

def activeIndexAfterClose (tabCount active closed : Nat) : Option Nat :=
  if tabCount ≤ 1 ∨ tabCount ≤ active ∨ tabCount ≤ closed then none
  else
    let remaining := tabCount - 1
    some (if closed < active then active - 1
      else if remaining ≤ active then remaining - 1
      else active)

def reorderDestination (tabCount source insertion : Nat) : Nat :=
  if tabCount = 0 ∨ tabCount ≤ source then 0
  else
    let insertion := min insertion tabCount
    if source < insertion then min (insertion - 1) (tabCount - 1)
    else min insertion (tabCount - 1)

/-- A slot of a window that moves gets another reader. -/
def rebuildSlot (slot : WorkspaceViewSlot) : WorkspaceViewSlot :=
  match slot.content with
  | .pdf _ => { slot with
      content := .pdf ⟨slot.item.bind fun item => match item.source with
        | .file path => some path
        | _ => none⟩ }
  | .settings => slot

namespace WorkspaceWindow

def newPdf (host : ApplicationHost) (window : WindowId) (item : Option WorkspaceItemDescriptor)
    (view : WorkspaceViewDescriptor) (initialPath : Option PathBuf) :
    ApplicationHost × WorkspaceWindow :=
  let (tabId, host) := host.take
  (host, ⟨window, [.single tabId ⟨item, view, .pdf ⟨initialPath⟩⟩], 0⟩)

def newSettings (host : ApplicationHost) (window : WindowId) (view : WorkspaceViewDescriptor) :
    ApplicationHost × WorkspaceWindow :=
  let (tabId, host) := host.take
  (host, ⟨window, [.single tabId ⟨none, view, .settings⟩], 0⟩)

section

variable (window : WorkspaceWindow)

def currentTab : Option WorkspaceTab := window.tabs[window.activeTab]?

def currentSlot : Option WorkspaceViewSlot :=
  window.currentTab.bind (·.activeSlot)

section

variable (host : ApplicationHost)

def activationChanged (isActive : Bool) :
    Option ApplicationHost := do
  let tab ← window.currentTab
  let slot ← tab.activeSlot
  some (if isActive then host.setActiveViews slot.view.id tab.visibleViews
    else host.idleWorkspaceView slot.view.id)

def finishTabActivation :
    Option ApplicationHost := do
  let tab ← window.currentTab
  let slot ← tab.activeSlot
  some (host.selectWorkspaceTabViews window.id slot.view.id tab.visibleViews)

/-- Opens a document in the active view.  Settings are left alone. -/
def openPdf (path : PathBuf) (item : WorkspaceItemDescriptor)
    (view : WorkspaceViewDescriptor) : Option WorkspaceWindow := do
  let tab ← window.currentTab
  match tab.activeSlot with
  | some ⟨_, _, .pdf _⟩ =>
    let opened := tab.openSlot ⟨some item, view, .pdf ⟨some path⟩⟩
    some { window with tabs := window.tabs.set window.activeTab opened }
  | _ => some window

def addTab (slot : WorkspaceViewSlot) : Option (ApplicationHost × WorkspaceWindow) := do
  let (tabId, host) := host.take
  let window := { window with
    tabs := window.tabs ++ [.single tabId slot]
    activeTab := window.tabs.length }
  let host ← window.finishTabActivation host
  some (host, window)

def addPdfTab (item : Option WorkspaceItemDescriptor) (view : WorkspaceViewDescriptor)
    (path : PathBuf) :
    Option (ApplicationHost × WorkspaceWindow) :=
  window.addTab host ⟨item, view, .pdf ⟨some path⟩⟩

def addSettingsTab (view : WorkspaceViewDescriptor) : Option (ApplicationHost × WorkspaceWindow) :=
  window.addTab host ⟨none, view, .settings⟩

def splitWithTab (otherIndex : Nat) : Option (ApplicationHost × WorkspaceWindow) :=
  if window.tabs.length ≤ otherIndex ∨ otherIndex = window.activeTab then some (host, window)
  else do
    let tab ← window.currentTab
    let other ← window.tabs[otherIndex]?
    if tab.isSplit ∨ other.isSplit then some (host, window)
    else do
      let activeSlot ← tab.activeSlot
      let activeView := activeSlot.view.id
      let tabs := window.tabs.eraseIdx otherIndex
      let activeTab :=
        if otherIndex < window.activeTab then window.activeTab - 1 else window.activeTab
      let views := tab.views ++ other.views
      match WorkspaceTabLayout.splitPair tab.layout.id .horizontal (1 / 2) activeView
          other.layout.activeView activeView with
      | none => some (host, { window with tabs := tabs.set activeTab { tab with views }, activeTab })
      | some layout =>
        let window := { window with tabs := tabs.set activeTab ⟨layout, views⟩, activeTab }
        let host ← window.finishTabActivation host
        some (host, window)

def activateSplitView (view : ViewId) : Option (ApplicationHost × WorkspaceWindow) := do
  let tab ← window.currentTab
  if !tab.containsView view then some (host, window)
  else do
    let slot ← tab.activeSlot
    if slot.view.id = view then some (host, window)
    else do
      let window := { window with tabs := window.tabs.set window.activeTab (tab.activate view) }
      let host ← window.finishTabActivation host
      some (host, window)

def swapSplitViews : Option (ApplicationHost × WorkspaceWindow) := do
  let tab ← window.currentTab
  match tab.splitViews with
  | none => some (host, window)
  | some (first, second, ratio) =>
    let swapped := tab.place (.split .horizontal (1 - ratio) (.view second) (.view first))
    let window := { window with tabs := window.tabs.set window.activeTab swapped }
    let host ← window.finishTabActivation host
    some (host, window)

/-- The end of `split_from_drop`. -/
def splitOnSide (otherIndex : Nat)
    (droppedOnLeft : Bool) : Option (ApplicationHost × WorkspaceWindow) := do
  let (host, window) ← window.splitWithTab host otherIndex
  let tab ← window.currentTab
  if droppedOnLeft ∧ tab.isSplit then window.swapSplitViews host else some (host, window)

def separateSplit : Option (ApplicationHost × WorkspaceWindow) := do
  let tab ← window.currentTab
  match tab.splitViews with
  | none => some (host, window)
  | some (first, second, _) =>
    let activeSlot ← tab.activeSlot
    let active := activeSlot.view.id
    let detached := if active = first then second else first
    let detachedSlot ← tab.slot detached
    let rest : WorkspaceTab :=
      ⟨.single tab.layout.id active, tab.views.eraseIdx (tab.views.findIdx (·.view.id = detached))⟩
    let (tabId, host) := host.take
    let insertion := if detached = first then window.activeTab else window.activeTab + 1
    let window := { window with
      tabs := (window.tabs.set window.activeTab rest).insertIdx insertion (.single tabId detachedSlot)
      activeTab := if detached = first then window.activeTab + 1 else window.activeTab }
    let host ← window.finishTabActivation host
    some (host, window)

def closeSplitView (drafts : ViewId → Bool)
    (view : ViewId) : Option (ApplicationHost × WorkspaceWindow) := do
  let tab ← window.currentTab
  match tab.splitViews with
  | none => some (host, window)
  | some (first, second, _) =>
    if view ≠ first ∧ view ≠ second then some (host, window)
    else do
      let other := if view = first then second else first
      let removed ← tab.slot view
      if removed.hasDraft drafts then some (host, window)
      else do
        let rest : WorkspaceTab :=
          ⟨.single tab.layout.id other, tab.views.eraseIdx (tab.views.findIdx (·.view.id = view))⟩
        let window := { window with tabs := window.tabs.set window.activeTab rest }
        let next ← rest.slot other
        let host := host.removeWorkspaceView window.id removed.view.id (some next.view.id)
        let host ← window.finishTabActivation host
        some (host, window)

def setSplitRatio (window : WorkspaceWindow) (ratio : ℚ) : Option WorkspaceWindow := do
  let tab ← window.currentTab
  some { window with tabs := window.tabs.set window.activeTab (tab.setSplitRatio ratio) }

def activateTabIndex (index : Nat) : Option (ApplicationHost × WorkspaceWindow) :=
  if window.tabs.length ≤ index then some (host, window)
  else do
    let window := { window with activeTab := index }
    let host ← window.finishTabActivation host
    some (host, window)

def activateTabView (index : Nat) (view : ViewId) : Option (ApplicationHost × WorkspaceWindow) :=
  match window.tabs[index]? with
  | none => some (host, window)
  | some tab =>
    if tab.containsView view then
      { window with tabs := window.tabs.set index (tab.activate view) }.activateTabIndex host index
    else some (host, window)

def activateTab (view : ViewId) : Option (ApplicationHost × WorkspaceWindow) :=
  match window.tabs.findIdx? (·.containsView view) with
  | none => some (host, window)
  | some index => window.activateTabView host index view

/-- The result also says whether the window is to be closed. -/
def closeTab (drafts : ViewId → Bool)
    (index : Nat) : Option (ApplicationHost × WorkspaceWindow × Bool) :=
  match window.tabs[index]? with
  | none => some (host, window, false)
  | some removed =>
    if removed.hasDraft drafts then some (host, window, false)
    else if window.tabs.length = 1 then some (host, window, true)
    else do
      let activeTab ← activeIndexAfterClose window.tabs.length window.activeTab index
      let window := { window with tabs := window.tabs.eraseIdx index, activeTab }
      let next ← window.currentSlot
      let host := removed.views.foldl (fun host slot =>
        host.removeWorkspaceView window.id slot.view.id (some next.view.id)) host
      let host ← window.finishTabActivation host
      some (host, window, false)

def reorderTab (tabId : TabId) (insertion : Nat) :
    Option WorkspaceWindow :=
  match window.tabs.findIdx? (·.layout.id = tabId) with
  | none => some window
  | some source => do
    let destination := reorderDestination window.tabs.length source insertion
    if source = destination then some window
    else do
      let active ← window.currentTab
      let tab ← window.tabs[source]?
      let tabs := (window.tabs.eraseIdx source).insertIdx destination tab
      let activeTab ← tabs.findIdx? (·.layout.id = active.layout.id)
      some { window with tabs, activeTab }

/-- The tab, if it may leave the window.  The window is left without a tab if it was the last. -/
def takeTabForTransfer (drafts : ViewId → Bool)
    (tabId : TabId) : Option (ApplicationHost × WorkspaceWindow × Option WorkspaceTab) :=
  match window.tabs.findIdx? (·.layout.id = tabId) with
  | none => some (host, window, none)
  | some index => do
    let removed ← window.tabs[index]?
    if removed.hasDraft drafts then some (host, window, none)
    else do
      let tabs := window.tabs.eraseIdx index
      if tabs.isEmpty then some (host, { window with tabs }, some removed)
      else do
        let activeTab ← activeIndexAfterClose window.tabs.length window.activeTab index
        let window := { window with tabs, activeTab }
        let host ← window.finishTabActivation host
        some (host, window, some removed)

/-- A tab of another window is put in. -/
def insertTransferred (source : WindowId) (tab : WorkspaceTab)
    (insertion : Nat) : Option (ApplicationHost × WorkspaceWindow) := do
  let host := tab.views.foldl (fun host slot =>
    host.transferWorkspaceViewRegistration source window.id slot.view) host
  let tab := { tab with views := tab.views.map rebuildSlot }
  let insertion := min insertion window.tabs.length
  let window := { window with
    tabs := window.tabs.insertIdx insertion tab
    activeTab := insertion }
  let host ← window.finishTabActivation host
  some (host, window)

end

end

end WorkspaceWindow

end KeyReader.Workspace
