import KeyReader.Histories
import KeyReader.Workspace.Tables

/-! The application: its host, its windows, and the operations of both.  A window that is closed is
gone at once, and the host is told of it. -/

namespace KeyReader.Workspace

structure Application where
  host : ApplicationHost
  windows : List WorkspaceWindow

/-- What is dragged when a tab is moved. -/
structure TabDragPayload where
  sourceWindow : WindowId
  tab : TabId

/-- What an operation finds around it: the file system, and the views that have a draft. -/
structure Surroundings where
  files : FileSystem
  drafts : ViewId → Bool

inductive Operation
  | openPdfWindow (path : Option PathBuf)
  | openPdf (window : WindowId) (path : PathBuf)
  | openSettings (within : Option WindowId)
  | splitWithTab (window : WindowId) (otherIndex : Nat)
  | splitFromDrop (window : WindowId) (drag : TabDragPayload) (droppedOnLeft : Bool)
  | tabDrop (window : WindowId) (drag : TabDragPayload) (insertion : Nat)
  | activateTabIndex (window : WindowId) (index : Nat)
  | activateTabView (window : WindowId) (index : Nat) (view : ViewId)
  | activateSplitView (window : WindowId) (view : ViewId)
  | swapSplitViews (window : WindowId)
  | separateSplit (window : WindowId)
  | closeSplitView (window : WindowId) (view : ViewId)
  | closeTab (window : WindowId) (index : Nat)
  | setSplitRatio (window : WindowId) (ratio : ℚ)
  | activationChanged (window : WindowId) (isActive : Bool)
  | closeWindow (window : WindowId)

namespace Application

def new : Application := ⟨.new, []⟩

section

variable (app : Application)

def windowIndex (window : WindowId) : Option Nat :=
  app.windows.findIdx? (·.id = window)

/-- `handle.update`: what is done to a window that is open. -/
def update (app : Application) (window : WindowId)
    (change : WorkspaceWindow → ApplicationHost → Option (ApplicationHost × WorkspaceWindow)) :
    Option Application :=
  match app.windowIndex window with
  | none => some app
  | some index => do
    let opened ← app.windows[index]?
    let (host, changed) ← change opened app.host
    some ⟨host, app.windows.set index changed⟩

/-- `remove_window`, and what `on_window_closed` does about it. -/
def closeWindow (window : WindowId) : Application :=
  match app.windowIndex window with
  | none => app
  | some index =>
    let windows := app.windows.eraseIdx index
    ⟨app.host.pruneClosedWindows (windows.map (·.id)), windows⟩

def activateTab (app : Application) (window : WindowId) (view : ViewId) : Option Application :=
  app.update window fun opened host => opened.activateTab host view

section

variable (files : FileSystem)

def addWindow (item : Option WorkspaceItemDescriptor) (view : WorkspaceViewDescriptor)
    (window : WorkspaceWindow) : Application :=
  let host := app.host.insertWindow files window.id item view
  ⟨host.setActiveViews view.id [view.id], app.windows ++ [window]⟩

def openPdfWindow (path : Option PathBuf) :
    Option Application :=
  let existing := path.bind fun path => app.host.paths.lookup (files.normalizePath path)
  match existing.filter fun place => app.host.windows.contains place.1 with
  | some (window, view) => app.activateTab window view
  | none =>
    let normalized := path.map files.normalizePath
    let (windowId, host) := app.host.take
    let ((item, view), host) := host.allocatePdfView normalized
    let (host, window) := WorkspaceWindow.newPdf host windowId item view normalized
    some (addWindow ⟨host, app.windows⟩ files item view window)

/-- `open_pdf_from_workspace`. -/
def openPdf (app : Application) (files : FileSystem) (source : WindowId) (path : PathBuf) :
    Option Application :=
  let path := files.normalizePath path
  if app.windowIndex source = none then some app
  else match app.host.paths.lookup path with
  | some (window, view) =>
    if window = source ∨ app.host.windows.contains window then app.activateTab window view
    else some app
  | none => app.update source fun opened host =>
    if host.emptyPdfWindow source then do
      let ((item, _), host) := host.allocatePdfView (some path)
      let item ← item
      let record ← host.windows[source]?
      let active ← record.activeView
      let opened ← opened.openPdf path item ⟨active, some item.id, .pdf⟩
      some (host.recordOpened source item path active, opened)
    else do
      let ((item, view), host) := host.allocatePdfView (some path)
      let (host, opened) ← opened.addPdfTab host item view path
      let host := host.registerView files source item view
      some (host.setActiveViews view.id [view.id], opened)

def activeWindow : Option WindowId :=
  app.host.activeView.bind fun active =>
    (app.host.windows.toList.find? fun entry => entry.2.views.contains active).map (·.1)

/-- `open_settings_window`.  A window cannot be entered once more from `within` an operation of its
own. -/
def openSettings (within : Option WindowId) :
    Option Application :=
  match app.host.settingsView.filter fun place => app.host.windows.contains place.1 with
  | some (window, view) => if within = some window then some app else app.activateTab window view
  | none => match app.activeWindow with
    | some window =>
      let (view, host) := app.host.allocateSettingsView
      if within = some window ∨ app.windowIndex window = none then some { app with host }
      else update { app with host } window fun opened host => do
        let (host, opened) ← opened.addSettingsTab host view
        let host := { host with settingsView := some (window, view.id) }
        let host := host.registerView files window none view
        some (host.setActiveViews view.id [view.id], opened)
    | none =>
      let (windowId, host) := app.host.take
      let (view, host) := host.allocateSettingsView
      let (host, window) := WorkspaceWindow.newSettings host windowId view
      let host := { host with settingsView := some (windowId, view.id) }
      some (addWindow ⟨host, app.windows⟩ files none view window)

end

def closeTab (app : Application) (drafts : ViewId → Bool) (window : WindowId) (index : Nat) :
    Option Application :=
  match app.windowIndex window with
  | none => some app
  | some windowIndex => do
    let opened ← app.windows[windowIndex]?
    let (host, changed, removes) ← opened.closeTab app.host drafts index
    let app : Application := ⟨host, app.windows.set windowIndex changed⟩
    some (if removes then app.closeWindow window else app)

section

variable (drafts : ViewId → Bool)

/-- A tab moves from the window `source`, which is closed if it was its last. -/
def transferTab (target source : WindowId) (tabId : TabId) (insertion : Nat) : Option Application :=
  if !app.host.windows.contains source then some app
  else match app.windowIndex source with
  | none => some app
  | some sourceIndex => do
    let opened ← app.windows[sourceIndex]?
    let (host, left, taken) ← opened.takeTabForTransfer app.host drafts tabId
    let app : Application := ⟨host, app.windows.set sourceIndex left⟩
    match taken with
    | none => some app
    | some tab => do
      let app ← app.update target fun opened host =>
        opened.insertTransferred host source tab insertion
      some (if left.tabs.isEmpty then app.closeWindow source else app)

section

variable (window : WindowId)

def handleTabDrop (drag : TabDragPayload) (insertion : Nat) : Option Application :=
  if app.windowIndex window = none then some app
  else if drag.sourceWindow = window then
    app.update window fun opened host => (opened.reorderTab drag.tab insertion).map (host, ·)
  else app.transferTab drafts window drag.sourceWindow drag.tab insertion

def splitOwn (source : TabId) (droppedOnLeft : Bool) :
    Option Application :=
  app.update window fun opened host =>
    match opened.tabs.findIdx? (·.layout.id = source) with
    | none => some (host, opened)
    | some sourceIndex => opened.splitOnSide host sourceIndex droppedOnLeft

def splitDropped (target source : TabId) (droppedOnLeft : Bool) : Option Application :=
  app.update window fun opened host =>
    match opened.tabs.findIdx? (·.layout.id = target),
        opened.tabs.findIdx? (·.layout.id = source) with
    | some targetIndex, some sourceIndex =>
      { opened with activeTab := targetIndex }.splitOnSide host sourceIndex droppedOnLeft
    | _, _ => some (host, opened)

def splitFromDrop (drag : TabDragPayload) (droppedOnLeft : Bool) : Option Application :=
  match app.windowIndex window with
  | none => some app
  | some index => do
    let opened ← app.windows[index]?
    let target ← opened.currentTab
    if target.isSplit then some app
    else if drag.sourceWindow = window then app.splitOwn window drag.tab droppedOnLeft
    else do
      let app ← app.handleTabDrop drafts window drag opened.tabs.length
      app.splitDropped window target.layout.id drag.tab droppedOnLeft

end

end

def step : Surroundings × Operation → Option Application
  | (around, .openPdfWindow path) => app.openPdfWindow around.files path
  | (around, .openPdf window path) => app.openPdf around.files window path
  | (around, .openSettings within) => app.openSettings around.files within
  | (_, .splitWithTab window otherIndex) =>
    app.update window fun opened host => opened.splitWithTab host otherIndex
  | (around, .splitFromDrop window drag droppedOnLeft) =>
    app.splitFromDrop around.drafts window drag droppedOnLeft
  | (around, .tabDrop window drag insertion) =>
    app.handleTabDrop around.drafts window drag insertion
  | (_, .activateTabIndex window index) =>
    app.update window fun opened host => opened.activateTabIndex host index
  | (_, .activateTabView window index view) =>
    app.update window fun opened host => opened.activateTabView host index view
  | (_, .activateSplitView window view) =>
    app.update window fun opened host => opened.activateSplitView host view
  | (_, .swapSplitViews window) => app.update window fun opened host => opened.swapSplitViews host
  | (_, .separateSplit window) => app.update window fun opened host => opened.separateSplit host
  | (around, .closeSplitView window view) =>
    app.update window fun opened host => opened.closeSplitView host around.drafts view
  | (around, .closeTab window index) => app.closeTab around.drafts window index
  | (_, .setSplitRatio window ratio) =>
    app.update window fun opened host => (opened.setSplitRatio ratio).map (host, ·)
  | (_, .activationChanged window isActive) => app.update window fun opened host =>
    (opened.activationChanged host isActive).map (·, opened)
  | (_, .closeWindow window) => some (app.closeWindow window)

end

end Application

end KeyReader.Workspace

/-! What a step of the application keeps: of the windows and their tabs, of the views, and of what the
tables say. -/

namespace KeyReader.Workspace

open List

open ApplicationHost (Retains)
open WorkspaceWindow (Trades Reorganises Rearranges)

def WorkspaceWindow.entries (window : WorkspaceWindow) : Entries := window.slots.map (window.id, ·)

namespace Application

def entries (app : Application) : Entries := app.windows.flatMap (·.entries)

def viewIds (app : Application) : List ViewId := app.entries.viewIds

def windowIds (app : Application) : List WindowId := app.windows.map (·.id)

/-- The windows and their views have names of their own, which are not given again. -/
structure Named (app : Application) : Prop where
  ids : app.windowIds.Nodup
  views : app.viewIds.Nodup
  freshViews : ∀ view ∈ app.viewIds, view < app.host.nextId
  freshWindows : ∀ window ∈ app.windowIds, window < app.host.nextId

structure Grounded (app : Application) : Prop extends Named app where
  windows : ∀ window ∈ app.windows, window.Grounded

def Faithful (app : Application) : Prop := ∀ window ∈ app.windows, window.Faithful

def TellsTruth (app : Application) : Prop := Truthful app.host app.windowIds app.entries

/-- What a part of a step keeps.  The tabs stay faithful if the step is tidy, and the tables true if
the window was told what the host was told. -/
structure Passes (tidy told : Prop) (lost : List ViewId) (before after : Application) : Prop where
  faithful : tidy → before.Faithful → after.Faithful
  truthful : told → before.TellsTruth → after.TellsTruth
  kept : ∀ view ∈ before.viewIds, view ∈ after.viewIds ∨ view ∈ lost

structure Carries (tidy told : Prop) (lost : List ViewId) (before after : Application) : Prop
    extends Passes tidy told lost before after where
  grounded : after.Grounded

variable {tidy told : Prop} {lost : List ViewId} {before between after : Application}

theorem Carries.refl (h : after.Grounded) : Carries tidy told lost after after :=
  ⟨⟨fun _ h => h, fun _ h => h, fun _ h => .inl h⟩, h⟩

theorem Passes.carries (h : Passes tidy told lost before between)
    (h' : Carries tidy told lost between after) : Carries tidy told lost before after where
  grounded := h'.grounded
  faithful htidy hfaithful := h'.faithful htidy (h.faithful htidy hfaithful)
  truthful htold htruthful := h'.truthful htold (h.truthful htold htruthful)
  kept view hview := by
    rcases h.kept view hview with hview | hlost
    · exact h'.kept view hview
    · exact .inr hlost

theorem windowIndex_eq_some {app : Application} {window : WindowId} {index : Nat}
    (h : app.windowIndex window = some index) :
    ∃ found, app.windows[index]? = some found ∧ found.id = window := by
  obtain ⟨hlt, hfound, -⟩ := List.findIdx?_eq_some_iff_getElem.mp h
  exact ⟨_, List.getElem?_eq_getElem hlt, of_decide_eq_true hfound⟩

theorem windowIndex_of_mem {app : Application} {window : WindowId} (h : window ∈ app.windowIds) :
    ∃ index, app.windowIndex window = some index := by
  obtain ⟨found, hmem, hid⟩ := mem_map.mp h
  exact ⟨_, List.findIdx?_eq_some_of_exists ⟨found, hmem, decide_eq_true hid⟩⟩

theorem mem_windowIds {app : Application} {index : Nat} {window : WorkspaceWindow}
    (h : app.windows[index]? = some window) : window.id ∈ app.windowIds :=
  mem_map_of_mem (mem_of_getElem? h)

section change

variable {app : Application} {index : Nat} {window after : WorkspaceWindow}

theorem windowIds_set (hindex : app.windows[index]? = some window) (hid : after.id = window.id)
    (host : ApplicationHost) :
    windowIds ⟨host, app.windows.set index after⟩ = app.windowIds := by
  obtain ⟨hlt, rfl⟩ := List.getElem?_eq_some_iff.mp hindex
  apply ext_getElem?
  intro other
  simp only [windowIds, map_set, List.getElem?_set, length_map, hlt, if_true]
  split
  · rename_i heq
    subst heq
    simp [hlt, hid]
  · rfl

theorem entries_trade (hindex : app.windows[index]? = some window)
    {gone added : List WorkspaceViewSlot} (h : Trades gone added window after)
    (host : ApplicationHost) :
    ∃ rest : Entries, app.entries.Perm (gone.map (window.id, ·) ++ rest) ∧
      (entries ⟨host, app.windows.set index after⟩).Perm (added.map (window.id, ·) ++ rest) ∧
      ∀ view ∈ after.viewIds, view ∈ Entries.viewIds (added.map (window.id, ·) ++ rest) := by
  obtain ⟨kept, hbefore, hafter⟩ := h.slots
  refine ⟨kept.map (window.id, ·) ++ (app.windows.eraseIdx index).flatMap (·.entries),
    ?_, ?_, fun view hview => ?_⟩
  · have hwindow : window.entries.Perm (gone.map (window.id, ·) ++ kept.map (window.id, ·)) := by
      rw [← map_append]
      exact hbefore.map _
    rw [← append_assoc]
    exact (Regrouping.items_perm _ hindex).trans (hwindow.append_right _)
  · have hwindow : after.entries.Perm (added.map (window.id, ·) ++ kept.map (window.id, ·)) := by
      rw [← map_append, ← h.id]
      exact hafter.map _
    rw [← append_assoc]
    exact (Regrouping.items_set_perm _ hindex after).trans (hwindow.append_right _)
  · obtain ⟨slot, hslot, rfl⟩ := mem_map.mp hview
    rw [← append_assoc, ← map_append]
    exact mem_map.mpr ⟨(window.id, slot), mem_append_left _
      (mem_map_of_mem (hafter.mem_iff.mp hslot)), rfl⟩

/-- One window trades views while the host takes note of it. -/
theorem carries_trade (h : app.Grounded) (hindex : app.windows[index]? = some window)
    {gone added : List WorkspaceViewSlot} (htrades : Trades gone added window after)
    {next : ApplicationHost} (hnext : app.host.nextId ≤ next.nextId)
    (hfaithful : tidy → window.Faithful → after.Faithful)
    (hlost : ∀ slot ∈ gone, slot.view.id ∈ added.map (·.view.id) ∨ slot.view.id ∈ lost)
    (hfresh : ∀ slot ∈ added, slot.view.id < next.nextId)
    (hnodup : ∀ rest : Entries, (Entries.viewIds (gone.map (window.id, ·) ++ rest)).Nodup →
      (∀ view ∈ rest.viewIds, view < app.host.nextId) →
        (Entries.viewIds (added.map (window.id, ·) ++ rest)).Nodup)
    (htruthful : told → ∀ rest : Entries,
      (Entries.viewIds (gone.map (window.id, ·) ++ rest)).Nodup →
      (∀ view ∈ rest.viewIds, view < app.host.nextId) →
      (∀ view ∈ after.viewIds, view ∈ Entries.viewIds (added.map (window.id, ·) ++ rest)) →
      Truthful app.host app.windowIds (gone.map (window.id, ·) ++ rest) →
      Truthful next app.windowIds (added.map (window.id, ·) ++ rest)) :
    Carries tidy told lost app ⟨next, app.windows.set index after⟩ := by
  obtain ⟨rest, hbefore, hafter, hviews⟩ := entries_trade hindex htrades next
  have hbeforeIds : app.viewIds.Perm (Entries.viewIds (gone.map (window.id, ·) ++ rest)) :=
    hbefore.map _
  have hafterIds : (viewIds ⟨next, app.windows.set index after⟩).Perm
      (Entries.viewIds (added.map (window.id, ·) ++ rest)) := hafter.map _
  have hgoneNodup := hbeforeIds.nodup_iff.mp h.views
  have hrestFresh : ∀ view ∈ rest.viewIds, view < app.host.nextId := fun view hview =>
    h.freshViews view (hbeforeIds.mem_iff.mpr (Entries.viewIds_append ▸ mem_append_right _ hview))
  have hids := windowIds_set hindex htrades.id next
  exact {
    grounded := {
      windows := fun found hfound => by
        rcases mem_or_eq_of_mem_set hfound with hfound | rfl
        · exact h.windows found hfound
        · exact htrades.grounded
      ids := hids ▸ h.ids
      views := hafterIds.nodup_iff.mpr (hnodup rest hgoneNodup hrestFresh)
      freshViews := fun view hview => by
        rw [hafterIds.mem_iff, Entries.viewIds_append, mem_append] at hview
        rcases hview with hview | hview
        · obtain ⟨entry, hentry, rfl⟩ := mem_map.mp hview
          obtain ⟨slot, hslot, rfl⟩ := mem_map.mp hentry
          exact hfresh slot hslot
        · exact (hrestFresh view hview).trans_le hnext
      freshWindows := fun found hfound => (h.freshWindows found (hids ▸ hfound)).trans_le hnext }
    faithful := fun htidy hbefore found hfound => by
      rcases mem_or_eq_of_mem_set hfound with hfound | rfl
      · exact hbefore found hfound
      · exact hfaithful htidy (hbefore window (mem_of_getElem? hindex))
    truthful := fun htold htruth => by
      have htruth := htruthful htold rest hgoneNodup hrestFresh hviews (htruth.perm hbefore)
      have hsame := htruth.perm hafter.symm
      rw [← hids] at hsame
      exact hsame
    kept := fun view hview => by
      rw [hbeforeIds.mem_iff, Entries.viewIds_append, mem_append] at hview
      rw [hafterIds.mem_iff, Entries.viewIds_append, mem_append]
      rcases hview with hview | hview
      · obtain ⟨entry, hentry, rfl⟩ := mem_map.mp hview
        obtain ⟨slot, hslot, rfl⟩ := mem_map.mp hentry
        rcases hlost slot hslot with hadded | hlost
        · obtain ⟨other, hother, hsame⟩ := mem_map.mp hadded
          refine .inl (.inl (mem_map.mpr ⟨(window.id, other), ?_, hsame⟩))
          exact mem_map_of_mem hother
        · exact .inr hlost
      · exact .inl (.inr hview) }

theorem trades_of_rearranges (h : Rearranges window after) : Trades [] [] window after :=
  ⟨h.id, h.grounded, after.slots, h.slots.symm, .refl _⟩

end change

end Application

end KeyReader.Workspace

/-! What each operation of the application carries over, from what it does to the window. -/

namespace KeyReader.Workspace

open List

open ApplicationHost (Retains)
open WorkspaceWindow (Trades Reorganises Rearranges)

namespace Application

variable {app : Application} {tidy told : Prop} {lost : List ViewId}

theorem Grounded.window_unique (h : app.Grounded) {window other : WorkspaceWindow}
    (hwindow : window ∈ app.windows) (hother : other ∈ app.windows) (hid : window.id = other.id) :
    window = other := inj_on_of_nodup_map h.ids hwindow hother hid

variable {window : WorkspaceWindow}

theorem Grounded.nodup_viewIds (h : app.Grounded)
    (hwindow : window ∈ app.windows) : window.viewIds.Nodup := by
  have hsub : window.entries.Sublist app.entries := by
    obtain ⟨before, after, hsplit⟩ := append_of_mem hwindow
    rw [entries, hsplit, flatMap_append, flatMap_cons]
    exact (sublist_append_left _ _).trans (sublist_append_right _ _)
  have hids : window.viewIds = Entries.viewIds window.entries := by
    rw [Entries.viewIds, WorkspaceWindow.entries, map_map]
    rfl
  rw [hids]
  exact h.views.sublist (hsub.map _)

theorem set_same {index : Nat} (h : app.windows[index]? = some window) :
    (⟨app.host, app.windows.set index window⟩ : Application) = app := by
  obtain ⟨hlt, rfl⟩ := List.getElem?_eq_some_iff.mp h
  rw [set_getElem_self]

theorem carries_reorganise (h : app.Grounded) {index : Nat}
    (hindex : app.windows[index]? = some window)
    {result : Option (ApplicationHost × WorkspaceWindow)}
    (hresult : Reorganises window app.host result) :
    ∃ next after, result = some (next, after) ∧
      Carries tidy told lost app ⟨next, app.windows.set index after⟩ := by
  obtain ⟨next, after, hsome, hafter, hnext, hretains⟩ := hresult
  refine ⟨next, after, hsome, carries_trade h hindex (trades_of_rearranges hafter) hnext
    (fun _ => hafter.faithful) (by simp) (by simp) (fun _ hnodup _ => hnodup) ?_⟩
  intro _ rest hnodup _ hviews htruth
  exact htruth.retains hretains (fun view hview => hviews view (hafter.mem_viewIds.mpr hview)) hnodup

theorem carries_update (h : app.Grounded) (window : WindowId)
    {change : WorkspaceWindow → ApplicationHost → Option (ApplicationHost × WorkspaceWindow)}
    (hchange : ∀ opened : WorkspaceWindow, opened.Grounded → opened.viewIds.Nodup →
      Reorganises opened app.host (change opened app.host)) :
    ∃ after, app.update window change = some after ∧ Carries tidy told lost app after := by
  unfold update
  cases hindex : app.windowIndex window with
  | none => exact ⟨app, rfl, .refl h⟩
  | some index =>
    obtain ⟨opened, hopened, -⟩ := windowIndex_eq_some hindex
    have hmem := mem_of_getElem? hopened
    have hreorganises := hchange opened (h.windows opened hmem) (h.nodup_viewIds hmem)
    obtain ⟨next, after, hafter, hcarries⟩ := carries_reorganise h hopened hreorganises
    exact ⟨_, by simp only [hopened, hafter, Option.bind_eq_bind, Option.bind_some], hcarries⟩

theorem carries_closeSplitView (h : app.Grounded) (window : WindowId) (drafts : ViewId → Bool)
    (view : ViewId) : ∃ after, app.update window (fun opened host =>
        opened.closeSplitView host drafts view) = some after ∧ Carries tidy told [view] app after := by
  unfold update
  cases hindex : app.windowIndex window with
  | none => exact ⟨app, rfl, .refl h⟩
  | some index =>
    obtain ⟨opened, hopened, -⟩ := windowIndex_eq_some hindex
    have hgrounded := h.windows opened (mem_of_getElem? hopened)
    simp only [hopened, Option.bind_eq_bind, Option.bind_some]
    rcases WorkspaceWindow.closeSplitView_spec hgrounded app.host drafts view with
      hsame | ⟨next, after, removed, other, hnext, rfl, htrades, hfaithful, hnextId, hretains⟩
    · rw [hsame, Option.bind_some, set_same hopened]
      exact ⟨app, rfl, .refl h⟩
    · rw [hnext]
      refine ⟨_, rfl, carries_trade h hopened htrades hnextId.ge (fun _ => hfaithful) (by simp)
        (by simp) (fun _ hnodup _ => (nodup_cons.mp hnodup).2) ?_⟩
      intro _ rest hnodup _ hviews htruth
      obtain ⟨hnew, hrest⟩ := nodup_cons.mp hnodup
      exact (htruth.remove hnew _).retains hretains hviews hrest

theorem carries_closeWindow (h : app.Named) (window : WindowId)
    (hwindows : ∀ opened ∈ app.windows, opened.id ≠ window → opened.Grounded)
    (hlost : ∀ opened ∈ app.windows, opened.id = window → ∀ view ∈ opened.viewIds, view ∈ lost) :
    Carries tidy told lost app (app.closeWindow window) := by
  unfold closeWindow
  cases hindex : app.windowIndex window with
  | none =>
    have hother : ∀ opened ∈ app.windows, opened.id ≠ window := fun opened hopened =>
      of_decide_eq_false (List.findIdx?_eq_none_iff.mp hindex opened hopened)
    exact .refl { h with windows := fun opened hopened => hwindows opened hopened (hother opened hopened) }
  | some index =>
    obtain ⟨opened, hopened, hid⟩ := windowIndex_eq_some hindex
    have hmem := mem_of_getElem? hopened
    have hbefore : app.entries.Perm
        (opened.entries ++ (app.windows.eraseIdx index).flatMap (·.entries)) :=
      Regrouping.items_perm _ hopened
    have hids : app.windowIds.Perm (window :: (app.windows.eraseIdx index).map (·.id)) :=
      hid ▸ (Regrouping.perm_cons_eraseIdx hopened).map _
    obtain ⟨hnot, hidsNodup⟩ := nodup_cons.mp (hids.nodup_iff.mp h.ids)
    have hviews : app.viewIds.Perm (Entries.viewIds opened.entries ++
        Entries.viewIds ((app.windows.eraseIdx index).flatMap (·.entries))) :=
      Entries.viewIds_append ▸ hbefore.map _
    have hviewsNodup := hviews.nodup_iff.mp h.views
    exact {
      grounded := {
        windows := fun found hfound => by
          refine hwindows found (mem_of_mem_eraseIdx hfound) fun hsame => hnot ?_
          exact hsame ▸ mem_map_of_mem hfound
        ids := hidsNodup
        views := hviewsNodup.sublist (sublist_append_right _ _)
        freshViews := fun view hview =>
          h.freshViews view (hviews.mem_iff.mpr (mem_append_right _ hview))
        freshWindows := fun found hfound =>
          h.freshWindows found (hids.mem_iff.mpr (mem_cons_of_mem _ hfound)) }
      faithful := fun _ hfaithful found hfound =>
        hfaithful found (mem_of_mem_eraseIdx hfound)
      truthful := fun _ htruth => by
        have hgone : ∀ entry ∈ opened.entries,
            entry.1 ∉ (app.windows.eraseIdx index).map (·.id) := by
          rintro entry hentry
          obtain ⟨slot, -, rfl⟩ := mem_map.mp hentry
          exact hid ▸ hnot
        have hrest : ∀ entry ∈ (app.windows.eraseIdx index).flatMap (·.entries),
            entry.1 ∈ (app.windows.eraseIdx index).map (·.id) := by
          rintro entry hentry
          obtain ⟨other, hother, hentry⟩ := mem_flatMap.mp hentry
          obtain ⟨slot, -, rfl⟩ := mem_map.mp hentry
          exact mem_map_of_mem hother
        have hpruned := (htruth.perm hbefore).prune (Entries.viewIds_append ▸ hviewsNodup) hgone hrest
        refine hpruned.windows_congr fun found => ?_
        rw [mem_filter, hids.mem_iff, contains_iff_mem, mem_cons]
        exact ⟨fun hboth => hboth.2, fun hfound => ⟨.inr hfound, hfound⟩⟩
      kept := fun view hview => by
        rcases mem_append.mp (hviews.mem_iff.mp hview) with hview | hview
        · refine .inr (hlost opened hmem hid view ?_)
          rwa [Entries.viewIds, WorkspaceWindow.entries, map_map] at hview
        · exact .inl hview }

theorem carries_closeTab (h : app.Grounded) (drafts : ViewId → Bool) (window : WindowId)
    (index : Nat) (hlost : ∀ opened ∈ app.windows, opened.id = window →
      ∀ removed, opened.tabs[index]? = some removed → ∀ view ∈ removed.viewIds, view ∈ lost) :
    ∃ after, app.closeTab drafts window index = some after ∧
      Carries tidy told lost app after := by
  unfold closeTab
  cases hindex : app.windowIndex window with
  | none => exact ⟨app, rfl, .refl h⟩
  | some windowIndex =>
    obtain ⟨opened, hopened, hid⟩ := windowIndex_eq_some hindex
    have hmem := mem_of_getElem? hopened
    simp only [hopened, Option.bind_eq_bind, Option.bind_some]
    rcases WorkspaceWindow.closeTab_spec (h.windows opened hmem) app.host drafts index with
      ⟨removes, hsame, hlast⟩ |
      ⟨next, after, removed, other, hnext, hremoved, htrades, hfaithful, hnextId, hretains⟩
    · rw [hsame, Option.bind_some]
      dsimp only
      rw [set_same hopened]
      refine ⟨_, rfl, ?_⟩
      split
      · rename_i hremoves
        obtain ⟨removed, hremoved, honly⟩ := hlast hremoves
        refine carries_closeWindow h.toNamed window (fun found hfound _ => h.windows found hfound)
          fun found hfound hfoundId view hview => ?_
        obtain rfl := h.window_unique hfound hmem (hfoundId.trans hid.symm)
        refine hlost found hfound hfoundId removed hremoved view ?_
        simpa [WorkspaceWindow.viewIds, WorkspaceWindow.slots, honly, WorkspaceTab.viewIds]
          using hview
      · exact .refl h
    · rw [hnext]
      refine ⟨_, rfl, carries_trade h hopened htrades hnextId.ge (fun _ => hfaithful) ?_ (by simp)
        (fun _ hnodup _ => ?_) ?_⟩
      · intro slot hslot
        exact .inr (hlost opened hmem hid removed hremoved _ (mem_map_of_mem hslot))
      · rw [Entries.viewIds_append] at hnodup
        exact hnodup.sublist (sublist_append_right _ _)
      · intro _ rest hnodup _ hviews htruth
        have hrest : (Entries.viewIds rest).Nodup :=
          (Entries.viewIds_append ▸ hnodup).sublist (sublist_append_right _ _)
        exact (htruth.removeAll hnodup _).retains hretains hviews hrest

theorem entries_leave {index : Nat} {opened left : WorkspaceWindow}
    (hindex : app.windows[index]? = some opened) (hid : left.id = opened.id)
    {removed : List WorkspaceViewSlot} (hslots : opened.slots.Perm (removed ++ left.slots))
    (host : ApplicationHost) :
    app.entries.Perm (removed.map (opened.id, ·) ++
      entries ⟨host, app.windows.set index left⟩) := by
  have hopened : opened.entries.Perm (removed.map (opened.id, ·) ++ left.entries) := by
    rw [WorkspaceWindow.entries, WorkspaceWindow.entries, hid, ← map_append]
    exact hslots.map _
  have hbefore : app.entries.Perm
      (opened.entries ++ (app.windows.eraseIdx index).flatMap (·.entries)) :=
    Regrouping.items_perm _ hindex
  have hafter : (entries ⟨host, app.windows.set index left⟩).Perm
      (left.entries ++ (app.windows.eraseIdx index).flatMap (·.entries)) :=
    Regrouping.items_set_perm _ hindex left
  have hparted := hbefore.trans (hopened.append_right _)
  rw [append_assoc] at hparted
  exact hparted.trans (hafter.symm.append_left _)

theorem map_rebuildSlot_of_honest {slots : List WorkspaceViewSlot}
    (h : ∀ slot ∈ slots, slot.Honest) : slots.map rebuildSlot = slots := by
  conv => rhs; rw [← map_id slots]
  exact map_congr_left fun slot hslot => (h slot hslot).rebuild

theorem truthful_moved {host : ApplicationHost} {windows : List WindowId} {rest : Entries}
    {source target : WindowId} (hne : source ≠ target) {slots : List WorkspaceViewSlot}
    (h : Truthful host windows (slots.map (source, ·) ++ rest)) (htarget : target ∈ windows)
    (hnodup : (Entries.viewIds (slots.map (source, ·) ++ rest)).Nodup) :
    Truthful (slots.foldl (fun host slot =>
      host.transferWorkspaceViewRegistration source target slot.view) host) windows
        ((slots.map rebuildSlot).map (target, ·) ++ rest) := by
  have hhonest : ∀ slot ∈ slots, slot.Honest := fun slot hslot =>
    h.honest (source, slot) (mem_append_left _ (mem_map_of_mem hslot))
  rw [map_rebuildSlot_of_honest hhonest]
  exact h.transferAll hne htarget hnodup

theorem truthful_left {host next : ApplicationHost} {windows : List WindowId} {entries : Entries}
    {left : WorkspaceWindow} (h : Truthful host windows entries) (hnodup : entries.viewIds.Nodup)
    (hleft : left.tabs = [] ∧ next = host ∨ left.Grounded ∧ Retains left.viewIds host next)
    (hknown : ∀ view ∈ left.viewIds, view ∈ entries.viewIds) : Truthful next windows entries := by
  rcases hleft with ⟨-, rfl⟩ | ⟨-, hretains⟩
  · exact h
  · exact h.retains hretains hknown hnodup

theorem viewIds_map_pair (window : WindowId) (slots : List WorkspaceViewSlot) :
    Entries.viewIds (slots.map (window, ·)) = slots.map (·.view.id) := by
  rw [Entries.viewIds, map_map]
  rfl

theorem mem_viewIds (hwindow : window ∈ app.windows) {view : ViewId}
    (h : view ∈ window.viewIds) : view ∈ app.viewIds := by
  obtain ⟨slot, hslot, rfl⟩ := mem_map.mp h
  refine mem_map.mpr ⟨(window.id, slot), mem_flatMap.mpr ⟨window, hwindow, ?_⟩, rfl⟩
  exact mem_map_of_mem hslot

theorem carries_transferTab (h : app.Grounded) (drafts : ViewId → Bool) {target source : WindowId}
    (hne : source ≠ target) (tabId : TabId) (insertion : Nat) {targetIndex : Nat}
    (htarget : app.windowIndex target = some targetIndex) :
    ∃ after, app.transferTab drafts target source tabId insertion = some after ∧
      Carries tidy told lost app after := by
  unfold transferTab
  split
  · exact ⟨app, rfl, .refl h⟩
  cases hindex : app.windowIndex source with
  | none => exact ⟨app, rfl, .refl h⟩
  | some sourceIndex =>
    obtain ⟨opened, hopened, rfl⟩ := windowIndex_eq_some hindex
    have hmem := mem_of_getElem? hopened
    simp only [hopened, Option.bind_eq_bind, Option.bind_some]
    rcases WorkspaceWindow.takeTabForTransfer_spec (h.windows opened hmem) app.host drafts tabId with
      hsame | ⟨next, left, removed, htaken, hremoved, hid, hnext, hslots, htabs, hleft⟩
    · rw [hsame, Option.bind_some]
      dsimp only
      rw [set_same hopened]
      exact ⟨app, rfl, .refl h⟩
    rw [htaken, Option.bind_some]
    dsimp only
    let between : Application := ⟨next, app.windows.set sourceIndex left⟩
    have hids : between.windowIds = app.windowIds := windowIds_set hopened hid next
    have hbefore := entries_leave hopened hid hslots next
    have hleftMem : left ∈ between.windows := mem_set (List.getElem?_eq_some_iff.mp hopened).1 left
    have htargetId : target ∈ app.windowIds := by
      obtain ⟨found, hfound, rfl⟩ := windowIndex_eq_some htarget
      exact mem_windowIds hfound
    obtain ⟨destIndex, hdestIndex⟩ := windowIndex_of_mem (hids ▸ htargetId)
    obtain ⟨dest, hdest, rfl⟩ := windowIndex_eq_some hdestIndex
    have hdestMem : dest ∈ app.windows := by
      rcases mem_or_eq_of_mem_set (mem_of_getElem? hdest) with hfound | rfl
      · exact hfound
      · exact absurd hid.symm hne
    obtain ⟨last, after, hlast, htrades, hfaithful, hlastId, hretains⟩ :=
      WorkspaceWindow.insertTransferred_spec (h.windows dest hdestMem) next opened.id
        ((h.windows opened hmem).tabs removed hremoved) insertion
    obtain ⟨rest, hrest, hafter, hknown⟩ := @entries_trade between _ dest after hdest _ _ htrades
      last
    let final : Application := ⟨last, between.windows.set destIndex after⟩
    have hfinal : final.entries.Perm
        ((removed.views.map rebuildSlot).map (dest.id, ·) ++ between.entries) :=
      hafter.trans (hrest.symm.append_left _)
    have hviews : final.viewIds.Perm app.viewIds := by
      have hrebuilt : (Entries.viewIds ((removed.views.map rebuildSlot).map (dest.id, ·) ++
          between.entries)) = Entries.viewIds (removed.views.map (opened.id, ·) ++
            between.entries) := by
        rw [Entries.viewIds_append, Entries.viewIds_append, viewIds_map_pair, viewIds_map_pair,
          viewIds_map_rebuildSlot]
      exact (hfinal.map _).trans ((List.Perm.of_eq hrebuilt).trans (hbefore.map _).symm)
    have hfinalIds : final.windowIds = app.windowIds :=
      (windowIds_set hdest htrades.id last).trans hids
    have hnamed : final.Named := {
      ids := hfinalIds ▸ h.ids
      views := hviews.nodup_iff.mpr h.views
      freshViews := fun view hview => by
        rw [show final.host.nextId = app.host.nextId from hlastId.trans hnext]
        exact h.freshViews view (hviews.mem_iff.mp hview)
      freshWindows := fun window hwindow => by
        rw [show final.host.nextId = app.host.nextId from hlastId.trans hnext]
        exact h.freshWindows window (hfinalIds ▸ hwindow) }
    have hpasses : Passes tidy told lost app final := {
      faithful := fun _ hbeforeFaithful window hwindow => by
        rcases mem_or_eq_of_mem_set hwindow with hwindow | rfl
        · rcases mem_or_eq_of_mem_set hwindow with hwindow | rfl
          · exact hbeforeFaithful window hwindow
          · exact fun tab htab => hbeforeFaithful opened hmem tab (htabs tab htab)
        · exact hfaithful (hbeforeFaithful opened hmem removed hremoved)
            (hbeforeFaithful dest hdestMem)
      truthful := fun _ htruth => by
        have hgoneNodup := (Entries.perm_viewIds hbefore).nodup_iff.mp h.views
        have hleftViews : ∀ view ∈ left.viewIds, view ∈ Entries.viewIds
            (removed.views.map (opened.id, ·) ++ between.entries) := fun view hview => by
          rw [Entries.viewIds_append]
          exact mem_append_right _ (mem_viewIds hleftMem hview)
        have hnextTruth := truthful_left (htruth.perm hbefore) hgoneNodup hleft hleftViews
        have hmoved := truthful_moved hne hnextTruth htargetId hgoneNodup
        have hall := (hmoved.perm (hrest.append_left _)).retains hretains hknown ?_
        · rw [← hfinalIds] at hall
          exact hall.perm hafter.symm
        · exact (Entries.perm_viewIds hafter).nodup_iff.mp hnamed.views
      kept := fun view hview => .inl (hviews.mem_iff.mpr hview) }
    have hupdate : between.update dest.id (fun window host =>
        window.insertTransferred host opened.id removed insertion) = some final := by
      simp only [update, hdestIndex, hdest, hlast, Option.bind_eq_bind, Option.bind_some, between]
      rfl
    rw [hupdate]
    refine ⟨_, rfl, hpasses.carries ?_⟩
    have hwindows : ∀ window ∈ final.windows, window.Grounded ∨ window = left := fun window hwindow => by
      rcases mem_or_eq_of_mem_set hwindow with hwindow | rfl
      · rcases mem_or_eq_of_mem_set hwindow with hwindow | rfl
        · exact .inl (h.windows window hwindow)
        · exact .inr rfl
      · exact .inl htrades.grounded
    split
    · rename_i hempty
      refine carries_closeWindow hnamed opened.id (fun window hwindow hother => ?_)
        fun window hwindow hsame view hview => ?_
      · rcases hwindows window hwindow with hgrounded | rfl
        · exact hgrounded
        · exact absurd hid hother
      · have hbetween : window ∈ between.windows := by
          rcases mem_or_eq_of_mem_set hwindow with hwindow | rfl
          · exact hwindow
          · exact absurd (hsame.symm.trans htrades.id) hne
        have hnodup : between.windowIds.Nodup := hids ▸ h.ids
        obtain rfl := inj_on_of_nodup_map hnodup hbetween hleftMem (hsame.trans hid.symm)
        rw [WorkspaceWindow.viewIds, WorkspaceWindow.slots, isEmpty_iff.mp hempty] at hview
        cases hview
    · rename_i hsome
      have hleftGrounded := (hleft.resolve_left fun hempty => hsome (isEmpty_iff.mpr hempty.1)).1
      refine .refl { hnamed with windows := fun window hwindow => ?_ }
      rcases hwindows window hwindow with hgrounded | rfl
      · exact hgrounded
      · exact hleftGrounded

end Application

end KeyReader.Workspace
