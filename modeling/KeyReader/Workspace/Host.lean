import KeyReader.OrderedMap
import KeyReader.Table
import KeyReader.Workspace.Resources
import Mathlib.Algebra.Order.Field.Rat
import Mathlib.Data.List.Nodup
import Mathlib.Tactic.NormNum

/-! The placement of views in a tab.  Ratios are rational numbers. -/

namespace KeyReader.Workspace

abbrev ViewId := Nat

abbrev TabId := Nat

abbrev WindowId := Nat

inductive SplitAxis
  | horizontal
  | vertical
  deriving DecidableEq

inductive ContentPlacement
  | empty
  | view (viewId : ViewId)
  | split (axis : SplitAxis) (ratio : ℚ) (first second : ContentPlacement)

namespace ContentPlacement

def viewIds : ContentPlacement → List ViewId
  | empty => []
  | view viewId => [viewId]
  | split _ _ first second => first.viewIds ++ second.viewIds

def isView : ContentPlacement → Bool
  | view _ => true
  | _ => false

end ContentPlacement

structure WorkspaceTabLayout where
  id : TabId
  activeView : ViewId
  content : ContentPlacement

def clampRatio (ratio low high : ℚ) : ℚ := max low (min ratio high)

namespace WorkspaceTabLayout

def single (id : TabId) (viewId : ViewId) : WorkspaceTabLayout := ⟨id, viewId, .view viewId⟩

/-- One view or two distinct views, one of them active, and a ratio that leaves room for both. -/
def isSupported (layout : WorkspaceTabLayout) : Bool :=
  let views := layout.content.viewIds
  let shapeIsSupported : Bool := match layout.content with
    | .view _ => true
    | .split _ ratio first second =>
      decide (1 / 10 ≤ ratio ∧ ratio ≤ 9 / 10) && first.isView && second.isView
    | .empty => false
  shapeIsSupported && decide (views.length = 1 ∨ views.length = 2) && decide views.Nodup &&
    views.contains layout.activeView

def splitPair (id : TabId) (axis : SplitAxis) (ratio : ℚ) (first second activeView : ViewId) :
    Option WorkspaceTabLayout :=
  let layout : WorkspaceTabLayout := ⟨id, activeView,
    .split axis (clampRatio ratio (1 / 10) (9 / 10)) (.view first) (.view second)⟩
  if layout.isSupported then some layout else none

def visibleViews (layout : WorkspaceTabLayout) : List ViewId := layout.content.viewIds

/-- What is supported, shape by shape. -/
inductive Supported : WorkspaceTabLayout → Prop
  | single (id : TabId) (view : ViewId) : Supported (.single id view)
  | pair {id : TabId} {axis : SplitAxis} {ratio : ℚ} {first second activeView : ViewId}
      (hlow : 1 / 10 ≤ ratio) (hhigh : ratio ≤ 9 / 10) (hne : first ≠ second)
      (hactive : activeView = first ∨ activeView = second) :
      Supported ⟨id, activeView, .split axis ratio (.view first) (.view second)⟩

theorem isSupported_iff {layout : WorkspaceTabLayout} : layout.isSupported ↔ layout.Supported := by
  obtain ⟨id, activeView, content⟩ := layout
  constructor
  · intro h
    cases content with
    | empty => simp [isSupported] at h
    | view viewId =>
      obtain rfl : activeView = viewId := by
        simpa [isSupported, ContentPlacement.viewIds] using h
      exact .single id activeView
    | split axis ratio first second =>
      cases first with
      | view first =>
        cases second with
        | view second =>
          simp only [isSupported, ContentPlacement.viewIds, ContentPlacement.isView,
            Bool.and_eq_true, decide_eq_true_eq, List.contains_iff_mem] at h
          obtain ⟨⟨⟨⟨⟨⟨hlow, hhigh⟩, -⟩, -⟩, -⟩, hnodup⟩, hmem⟩ := h
          exact .pair hlow hhigh (by simpa using hnodup) (by simpa using hmem)
        | _ => simp [isSupported, ContentPlacement.isView] at h
      | _ => simp [isSupported, ContentPlacement.isView] at h
  · intro h
    cases h with
    | single => simp [isSupported, ContentPlacement.viewIds]
    | pair hlow hhigh hne hactive =>
      simp only [isSupported, ContentPlacement.viewIds, ContentPlacement.isView, Bool.and_eq_true,
        decide_eq_true_eq, List.contains_iff_mem]
      exact ⟨⟨⟨⟨⟨⟨hlow, hhigh⟩, trivial⟩, trivial⟩, rfl⟩, by simpa using hne⟩,
        by simpa using hactive⟩

theorem splitPair_eq_some {id : TabId} {axis : SplitAxis} {ratio : ℚ}
    {first second activeView : ViewId} (hne : first ≠ second)
    (hactive : activeView = first ∨ activeView = second) :
    ∃ layout, splitPair id axis ratio first second activeView = some layout ∧ layout.Supported ∧
      layout.id = id ∧ layout.activeView = activeView ∧
      layout.content.viewIds = [first, second] := by
  have hlow : (1 / 10 : ℚ) ≤ clampRatio ratio (1 / 10) (9 / 10) := le_max_left ..
  have hhigh : clampRatio ratio (1 / 10) (9 / 10) ≤ 9 / 10 := max_le (by norm_num) (min_le_right ..)
  have hsupported : Supported ⟨id, activeView, .split axis (clampRatio ratio (1 / 10) (9 / 10))
      (.view first) (.view second)⟩ := .pair hlow hhigh hne hactive
  exact ⟨_, if_pos (isSupported_iff.mpr hsupported), hsupported, rfl, rfl, rfl⟩

theorem Supported.nodup {layout : WorkspaceTabLayout} (h : layout.Supported) :
    layout.content.viewIds.Nodup := by
  cases h with
  | single => exact List.nodup_singleton _
  | pair _ _ hne => simpa [ContentPlacement.viewIds] using hne

theorem Supported.activate {layout : WorkspaceTabLayout} (h : layout.Supported) {view : ViewId}
    (hview : view ∈ layout.content.viewIds) : Supported { layout with activeView := view } := by
  cases h with
  | single id other =>
    obtain rfl := List.mem_singleton.mp hview
    exact .single id view
  | pair hlow hhigh hne => exact .pair hlow hhigh hne (by simpa [ContentPlacement.viewIds] using hview)

end WorkspaceTabLayout

end KeyReader.Workspace

/-! The application host: the tables that it keeps of the windows, the open documents and the
participants in the resource plan.  A window and its handle have one name.  Titles, capabilities and
generations are left out: no table is keyed by them. -/

namespace KeyReader.Workspace

open Std

structure PathBuf where
  components : List (List UInt8)
  deriving DecidableEq

/-- The file system while an operation runs: what a path canonicalizes to, if it does. -/
structure FileSystem where
  canonicalize : PathBuf → Option PathBuf
  canonical : ∀ {path found}, canonicalize path = some found → canonicalize found = some found

def FileSystem.normalizePath (files : FileSystem) (path : PathBuf) : PathBuf :=
  (files.canonicalize path).getD path

theorem FileSystem.normalizePath_normalizePath (files : FileSystem) (path : PathBuf) :
    files.normalizePath (files.normalizePath path) = files.normalizePath path := by
  unfold normalizePath
  cases h : files.canonicalize path with
  | none => simp [h]
  | some found => simp [files.canonical h]

abbrev ItemId := Nat

inductive ItemKind
  | pdf
  | markdown
  | video
  | settings
  | custom (name : String)
  deriving DecidableEq

inductive ItemSource
  | file (path : PathBuf)
  | transient
  | virtual (name : String)
  deriving DecidableEq

structure WorkspaceItemDescriptor where
  id : ItemId
  kind : ItemKind
  source : ItemSource
  deriving DecidableEq

structure WorkspaceViewDescriptor where
  id : ViewId
  itemId : Option ItemId
  kind : ItemKind

structure WindowRecord where
  activeView : Option ViewId
  views : ExtTreeMap ViewId (Option WorkspaceItemDescriptor)

/-- What the resource registry keeps of a view, apart from the allocation. -/
structure ViewParticipant where
  activity : ActivityLevel
  profile : ResourceProfile

structure ApplicationHost where
  nextId : Nat
  windows : ExtTreeMap WindowId WindowRecord
  paths : AList fun _ : PathBuf => WindowId × ViewId
  settingsView : Option (WindowId × ViewId)
  activeView : Option ViewId
  visibleViews : List ViewId
  viewMru : List ViewId
  resourceRegistry : ExtTreeMap ViewId ViewParticipant

def resourceProfile : ItemKind → ResourceProfile
  | .pdf => {
      minimum := ⟨24 * mib, 16 * mib, 0, 0⟩
      target := ⟨192 * mib, 128 * mib, 2, 2⟩
      weight := 3
      suspendable := true }
  | .settings => {
      minimum := ⟨4 * mib, 2 * mib, 0, 0⟩
      target := ⟨16 * mib, 8 * mib, 0, 0⟩
      weight := 1
      suspendable := true }
  | _ => .new ⟨8 * mib, 4 * mib, 0, 0⟩ ⟨128 * mib, 64 * mib, 1, 1⟩

/-- `ResourceRegistry::set_activity`: a view that takes no part is left alone. -/
def setActivity (registry : ExtTreeMap ViewId ViewParticipant) (view : ViewId)
    (activity : ActivityLevel) : ExtTreeMap ViewId ViewParticipant :=
  match registry[view]? with
  | some participant => registry.insert view { participant with activity }
  | none => registry

namespace ApplicationHost

def new : ApplicationHost where
  nextId := 1
  windows := ∅
  paths := ∅
  settingsView := none
  activeView := none
  visibleViews := []
  viewMru := []
  resourceRegistry := ∅

/-- `IdGenerator::take`, which every kind of identity is taken with.  The counter wraps around. -/
def take (host : ApplicationHost) : Nat × ApplicationHost :=
  (host.nextId, { host with nextId := (host.nextId + 1) % (Machine.u64Max + 1) })

section

variable (host : ApplicationHost)

/-- The activity of the view at a place of the list of recently used views. -/
def activityOf (index : Nat) (view : ViewId) : ActivityLevel :=
  if host.activeView = some view then .foregroundInteractive
  else if host.visibleViews.contains view then .foregroundVisible
  else match index with
    | 0 | 1 => .backgroundWarm
    | 2 | 3 => .backgroundCold
    | _ => .suspended

def refreshActivityLevels : ApplicationHost :=
  let registry := host.viewMru.zipIdx.foldl
    (fun registry entry => setActivity registry entry.1 (host.activityOf entry.2 entry.1))
    host.resourceRegistry
  { host with resourceRegistry := registry }

/-- `activate_workspace_views`. -/
def setActiveViews (view : ViewId) (visible : List ViewId) :
    ApplicationHost :=
  refreshActivityLevels { host with
    activeView := some view
    visibleViews := view :: visible
    viewMru := view :: host.viewMru.filter (· ≠ view) }

def setRecordActive (window : WindowId) (view : Option ViewId) :
    ApplicationHost :=
  match host.windows[window]? with
  | some record => { host with
      windows := host.windows.insert window { record with activeView := view } }
  | none => host

def selectWorkspaceTabViews (window : WindowId) (active : ViewId)
    (visible : List ViewId) : ApplicationHost :=
  (host.setRecordActive window (some active)).setActiveViews active visible

/-- `WindowRecord::views` of the windows that are open. -/
def viewsOf (takes : WindowId → Bool) : List ViewId :=
  host.windows.toList.flatMap fun entry => if takes entry.1 then entry.2.views.keys else []

def pruneClosedWindows (opened : List WindowId) : ApplicationHost :=
  let removedViews := host.viewsOf fun window => !opened.contains window
  let windows := host.windows.filter fun window _ => opened.contains window
  refreshActivityLevels { host with
    windows
    resourceRegistry := removedViews.foldl (fun registry view => registry.erase view)
      host.resourceRegistry
    viewMru := host.viewMru.filter fun view => !removedViews.contains view
    visibleViews := host.visibleViews.filter fun view => !removedViews.contains view
    paths := Table.retainValues (fun place => windows.contains place.1) host.paths
    settingsView := host.settingsView.filter fun place =>
      (windows[place.1]?).any fun record => record.views.contains place.2
    activeView := host.activeView.filter fun view =>
      windows.toList.any fun entry => entry.2.views.contains view }

def allocatePdfView (path : Option PathBuf) :
    (Option WorkspaceItemDescriptor × WorkspaceViewDescriptor) × ApplicationHost :=
  let (viewId, host) := host.take
  match path with
  | some path =>
    let (itemId, host) := host.take
    ((some ⟨itemId, .pdf, .file path⟩, ⟨viewId, some itemId, .pdf⟩), host)
  | none => ((none, ⟨viewId, none, .pdf⟩), host)

def allocateSettingsView : WorkspaceViewDescriptor × ApplicationHost :=
  let (viewId, host) := host.take
  (⟨viewId, none, .settings⟩, host)

section

variable (files : FileSystem)

def registerViewPath (item : Option WorkspaceItemDescriptor) (window : WindowId) (view : ViewId) :
    ApplicationHost :=
  match item with
  | some ⟨_, _, .file path⟩ => { host with
      paths := host.paths.insert (files.normalizePath path) (window, view) }
  | _ => host

def registerParticipant (view : WorkspaceViewDescriptor) :
    ApplicationHost :=
  refreshActivityLevels { host with
    resourceRegistry := host.resourceRegistry.insert view.id
      ⟨.backgroundWarm, resourceProfile view.kind⟩
    viewMru := host.viewMru.filter (· ≠ view.id) ++ [view.id] }

def insertWindow (window : WindowId) (item : Option WorkspaceItemDescriptor)
    (view : WorkspaceViewDescriptor) : ApplicationHost :=
  let host := { host with
    windows := host.windows.insert window ⟨some view.id, (∅ : ExtTreeMap _ _).insert view.id item⟩ }
  (host.registerViewPath files item window view.id).registerParticipant view

def registerView (window : WindowId) (item : Option WorkspaceItemDescriptor)
    (view : WorkspaceViewDescriptor) : ApplicationHost :=
  let host := match host.windows[window]? with
    | some record => { host with
        windows := host.windows.insert window ⟨some view.id, record.views.insert view.id item⟩ }
    | none => host
  (host.registerViewPath files item window view.id).registerParticipant view

end

def emptyPdfWindow (window : WindowId) : Bool :=
  match host.windows[window]? with
  | some record => record.activeView.any fun view => record.views[view]? = some none
  | none => false

/-- The end of an open into the empty view of a window. -/
def recordOpened (window : WindowId) (item : WorkspaceItemDescriptor) (path : PathBuf)
    (view : ViewId) : ApplicationHost :=
  let host := match host.windows[window]? with
    | some record => match record.activeView with
      | some active => { host with
          windows := host.windows.insert window
            { record with views := record.views.insert active (some item) } }
      | none => host
    | none => host
  { host with paths := host.paths.insert path (window, view) }

def removeWorkspaceView (window : WindowId) (view : ViewId)
    (nextActive : Option ViewId) : ApplicationHost :=
  let host := match host.windows[window]? with
    | some record => { host with
        windows := host.windows.insert window ⟨nextActive, record.views.erase view⟩ }
    | none => host
  refreshActivityLevels { host with
    paths := Table.retainValues (fun place => decide (place.2 ≠ view)) host.paths
    settingsView := host.settingsView.filter fun place => decide (place.2 ≠ view)
    resourceRegistry := host.resourceRegistry.erase view
    viewMru := host.viewMru.filter (· ≠ view)
    visibleViews := host.visibleViews.filter (· ≠ view)
    activeView := if host.activeView = some view then nextActive else host.activeView }

def transferWorkspaceViewRegistration (source target : WindowId)
    (view : WorkspaceViewDescriptor) : ApplicationHost :=
  if source = target then host
  else
    let item := (host.windows[source]?.bind fun record => record.views[view.id]?).join
    let host := match host.windows[source]? with
      | some record => { host with
          windows := host.windows.insert source
            { activeView := if record.activeView = some view.id then none else record.activeView
              views := record.views.erase view.id } }
      | none => host
    let host := match host.windows[target]? with
      | some record => { host with
          windows := host.windows.insert target ⟨some view.id, record.views.insert view.id item⟩ }
      | none => host
    { host with
      paths := Table.mapValues
        (fun _ place => if place.2 = view.id then (target, place.2) else place) host.paths
      settingsView := host.settingsView.map fun place =>
        if place.2 = view.id then (target, view.id) else place }

/-- `idle_workspace_view`. -/
def idleWorkspaceView (view : ViewId) : ApplicationHost :=
  if host.activeView = some view then
    { host with resourceRegistry := setActivity host.resourceRegistry view .foregroundIdle }
  else host

end

end ApplicationHost

end KeyReader.Workspace
