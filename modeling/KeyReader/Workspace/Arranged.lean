import KeyReader.Workspace.Opening

/-! Every run of the application in which no document is opened into a split, or into a view that the
record of its window does not name, keeps the tabs arranged. -/

namespace KeyReader.Workspace

open Transition List

namespace Application

def closes (app : Application) : Operation → List ViewId
  | .closeSplitView _ view => [view]
  | .closeTab window index =>
    (((app.windowOf window).bind fun opened => opened.tabs[index]?).map (·.viewIds)).getD []
  | .closeWindow window => ((app.windowOf window).map (·.viewIds)).getD []
  | _ => []

end Application

/-- What is asked of an open from a window. -/
def Operation.IfOpens (P : WindowId → PathBuf → Prop) : Operation → Prop
  | .openPdf window path => P window path
  | _ => True

instance Operation.decidableIfOpens (P : WindowId → PathBuf → Prop)
    [∀ window path, Decidable (P window path)] :
    (operation : Operation) → Decidable (operation.IfOpens P)
  | .openPdf window path => inferInstanceAs (Decidable (P window path))
  | .openPdfWindow .. | .openSettings .. | .splitWithTab .. | .splitFromDrop .. | .tabDrop ..
  | .activateTabIndex .. | .activateTabView .. | .activateSplitView .. | .swapSplitViews ..
  | .separateSplit .. | .closeSplitView .. | .closeTab .. | .setSplitRatio ..
  | .activationChanged .. | .closeWindow .. => isTrue trivial

theorem Operation.IfOpens.imp {P Q : WindowId → PathBuf → Prop} {operation : Operation}
    (h : operation.IfOpens P) (himp : ∀ window path, P window path → Q window path) :
    operation.IfOpens Q := by
  cases operation with
  | openPdf window path => exact himp window path h
  | _ => trivial

namespace Application

instance decidableOpensEmpty (app : Application) (files : FileSystem) (source : WindowId)
    (path : PathBuf) : Decidable (app.OpensEmpty files source path) :=
  inferInstanceAs (Decidable (_ ∧ _))

instance decidableActivePdf (app : Application) (window : WindowId) :
    Decidable (app.ActivePdf window) := inferInstanceAs (Decidable (_ = _))

instance decidableRecordsActive (app : Application) (window : WindowId) :
    Decidable (app.RecordsActive window) := inferInstanceAs (Decidable (_ = _))

instance decidableActiveSplit (app : Application) (window : WindowId) :
    Decidable (app.ActiveSplit window) := inferInstanceAs (Decidable (_ = _))

/-- There are identities left, and an open into the active view finds it as the host knows it. -/
def Ready (app : Application) (entry : Surroundings × Operation) : Prop :=
  app.host.nextId + 4 ≤ Machine.u64Max ∧ entry.2.IfOpens fun window path =>
    app.OpensEmpty entry.1.files window path → app.ActivePdf window → app.RecordsActive window

/-- An open into the active view finds it alone in its tab. -/
def Tidy (app : Application) (entry : Surroundings × Operation) : Prop :=
  entry.2.IfOpens fun window path =>
    app.OpensEmpty entry.1.files window path → app.ActivePdf window → ¬app.ActiveSplit window

/-- An open into the active view finds a document view. -/
def Told (app : Application) (entry : Surroundings × Operation) : Prop :=
  entry.2.IfOpens fun window path =>
    app.OpensEmpty entry.1.files window path → app.ActivePdf window

variable {app : Application}

theorem windowOf_eq_of_mem (h : app.Grounded) {opened : WorkspaceWindow}
    (hopened : opened ∈ app.windows) : app.windowOf opened.id = some opened := by
  obtain ⟨index, hindex⟩ := windowIndex_of_mem (mem_map_of_mem hopened)
  obtain ⟨found, hfound, hid⟩ := windowIndex_eq_some hindex
  obtain rfl := h.window_unique (mem_of_getElem? hfound) hopened hid
  exact windowOf_eq hindex hfound

/-- What a step of the application carries over. -/
theorem step_carries (h : app.Grounded) (entry : Surroundings × Operation)
    (hready : app.Ready entry) : ∃ after, app.step entry = some after ∧
      Carries (app.Tidy entry) (app.Told entry) (app.closes entry.2) app after := by
  obtain ⟨around, operation⟩ := entry
  obtain ⟨hids, hopens⟩ := hready
  cases operation with
  | openPdfWindow path => exact carries_openPdfWindow h around.files path hids
  | openPdf window path =>
    exact carries_openPdf h around.files window path hids hopens (fun htidy => htidy)
      fun htold => htold
  | openSettings within => exact carries_openSettings h around.files within hids
  | splitWithTab window otherIndex =>
    simp only [step]
    refine carries_update h window fun opened hopened hnodup => ?_
    exact WorkspaceWindow.splitWithTab_spec hopened hnodup app.host otherIndex
  | splitFromDrop window drag droppedOnLeft =>
    exact carries_splitFromDrop h around.drafts window drag droppedOnLeft
  | tabDrop window drag insertion => exact carries_handleTabDrop h around.drafts window drag insertion
  | activateTabIndex window index =>
    simp only [step]
    refine carries_update h window fun opened hopened _ => ?_
    exact WorkspaceWindow.activateTabIndex_spec hopened app.host index
  | activateTabView window index view =>
    simp only [step]
    refine carries_update h window fun opened hopened _ => ?_
    exact WorkspaceWindow.activateTabView_spec hopened app.host index view
  | activateSplitView window view =>
    simp only [step]
    refine carries_update h window fun opened hopened _ => ?_
    exact WorkspaceWindow.activateSplitView_spec hopened app.host view
  | swapSplitViews window =>
    refine carries_update h window fun opened hopened _ => ?_
    exact WorkspaceWindow.swapSplitViews_spec hopened app.host
  | separateSplit window =>
    refine carries_update h window fun opened hopened _ => ?_
    exact WorkspaceWindow.separateSplit_spec hopened (by omega)
  | closeSplitView window view => exact carries_closeSplitView h window around.drafts view
  | closeTab window index =>
    refine carries_closeTab h around.drafts window index ?_
    rintro opened hopened rfl removed hremoved view hview
    rw [closes, windowOf_eq_of_mem h hopened, Option.bind_some, hremoved]
    exact hview
  | setSplitRatio window ratio =>
    simp only [step]
    refine carries_update h window fun opened hopened _ => ?_
    exact WorkspaceWindow.setSplitRatio_spec hopened app.host ratio
  | activationChanged window isActive =>
    simp only [step]
    refine carries_update h window fun opened hopened _ => ?_
    exact WorkspaceWindow.activationChanged_spec hopened app.host isActive
  | closeWindow window =>
    refine ⟨_, rfl, carries_closeWindow h.toNamed window (fun opened hopened _ =>
      h.windows opened hopened) ?_⟩
    rintro opened hopened rfl view hview
    rw [closes, windowOf_eq_of_mem h hopened]
    exact hview

theorem grounded_new : new.Grounded :=
  ⟨⟨nodup_nil, nodup_nil, by simp [viewIds, entries, new, Entries.viewIds],
    by simp [windowIds, new]⟩, by simp [new]⟩

/-- Every window shows one of its tabs, every tab shows its views in a layout that is supported, and
no view is in two places. -/
structure Arranged (app : Application) : Prop where
  activeTab : ∀ window ∈ app.windows, window.activeTab < window.tabs.length
  supported : ∀ window ∈ app.windows, ∀ tab ∈ window.tabs, tab.layout.isSupported = true
  shown : ∀ window ∈ app.windows, ∀ tab ∈ window.tabs, tab.viewIds.Perm tab.visibleViews
  once : (app.windows.flatMap fun window => window.tabs.flatMap fun tab => tab.viewIds).Nodup

theorem viewIds_eq (app : Application) : app.viewIds =
    app.windows.flatMap fun window => window.tabs.flatMap fun tab => tab.viewIds := by
  rw [viewIds, Entries.viewIds, entries, map_flatMap]
  congr 1
  funext window
  rw [WorkspaceWindow.entries, map_map, WorkspaceWindow.slots, map_flatMap]
  rfl

theorem arranged (h : app.Grounded) (hfaithful : app.Faithful) : app.Arranged where
  activeTab window hwindow := (h.windows window hwindow).active
  supported window hwindow tab htab :=
    WorkspaceTabLayout.isSupported_iff.mpr (hfaithful window hwindow tab htab).supported
  shown window hwindow tab htab := (hfaithful window hwindow tab htab).shown
  once := viewIds_eq app ▸ h.views

/-- The host knows the active view of the window, which is alone in its tab, when a document is
opened into it. -/
def Careful (app : Application) (entry : Surroundings × Operation) : Prop :=
  app.host.nextId + 4 ≤ Machine.u64Max ∧ entry.2.IfOpens fun window path =>
    app.OpensEmpty entry.1.files window path → app.ActivePdf window →
      app.RecordsActive window ∧ ¬app.ActiveSplit window

instance decidableCareful (app : Application) (entry : Surroundings × Operation) :
    Decidable (app.Careful entry) := inferInstanceAs (Decidable (_ ∧ _))

theorem Careful.ready {entry : Surroundings × Operation} (h : app.Careful entry) :
    app.Ready entry :=
  ⟨h.1, h.2.imp fun _ _ hopens hempty hpdf => (hopens hempty hpdf).1⟩

theorem Careful.tidy {entry : Surroundings × Operation} (h : app.Careful entry) : app.Tidy entry :=
  h.2.imp fun _ _ hopens hempty hpdf => (hopens hempty hpdf).2

/-- A careful run does not panic, leaves the tabs arranged, and has closed a view wherever one is
gone. -/
theorem run_arranged (entries : List (Surroundings × Operation))
    (h : Along step Careful new entries) : ∃ app, run step new entries = some app ∧
      app.Arranged ∧ ∀ entry, app.Careful entry → ∃ after, app.step entry = some after ∧
        after.Arranged ∧ ∀ view ∈ app.viewIds, view ∈ after.viewIds ∨ view ∈ app.closes entry.2 := by
  have hpreserved : ∀ (app : Application) entry, app.Grounded ∧ app.Faithful → app.Careful entry →
      ∃ after, app.step entry = some after ∧ after.Grounded ∧ after.Faithful := by
    rintro app entry ⟨hgrounded, hfaithful⟩ hcareful
    obtain ⟨after, hafter, hcarries⟩ := step_carries hgrounded entry hcareful.ready
    exact ⟨after, hafter, hcarries.grounded, hcarries.faithful hcareful.tidy hfaithful⟩
  have hnew : new.Faithful := by simp [Faithful, new]
  obtain ⟨app, hrun, hgrounded, hfaithful⟩ := run_succeeds hpreserved ⟨grounded_new, hnew⟩ h
  refine ⟨app, hrun, arranged hgrounded hfaithful, fun entry hcareful => ?_⟩
  obtain ⟨after, hafter, hcarries⟩ := step_carries hgrounded entry hcareful.ready
  exact ⟨after, hafter, arranged hcarries.grounded (hcarries.faithful hcareful.tidy hfaithful),
    hcarries.kept⟩

/-- Every path is canonical, and no reader has a draft. -/
def calm : Surroundings := ⟨⟨some, fun _ => rfl⟩, fun _ => false⟩

def firstPath : PathBuf := ⟨[[97]]⟩

def secondPath : PathBuf := ⟨[[98]]⟩

/-- Documents are opened and placed side by side, separated and closed. -/
def carefulEntries : List (Surroundings × Operation) :=
  [(calm, .openPdfWindow none), (calm, .openPdf 1 firstPath), (calm, .openPdf 1 secondPath),
    (calm, .splitWithTab 1 0), (calm, .activateSplitView 1 2), (calm, .separateSplit 1),
    (calm, .closeTab 1 0)]

theorem carefulEntries_arranged : ∃ app, run step new carefulEntries = some app ∧ app.Arranged := by
  obtain ⟨app, hrun, harranged, -⟩ := run_arranged carefulEntries (by decide +kernel)
  exact ⟨app, hrun, harranged⟩

/-- A document moves next to an empty view, into which another document is opened. -/
def strandingEntries : List (Surroundings × Operation) :=
  [(calm, .openPdfWindow none), (calm, .openPdfWindow (some firstPath)),
    (calm, .splitFromDrop 1 ⟨4, 7⟩ false), (calm, .openPdf 1 secondPath)]

/-- A tab has a view that it does not show. -/
def hasStranded (app : Application) : Bool :=
  app.windows.any fun window => window.tabs.any fun tab =>
    decide (tab.viewIds.length ≠ tab.visibleViews.length)

theorem Arranged.not_hasStranded (h : app.Arranged) : app.hasStranded = false := by
  rw [hasStranded, any_eq_false]
  intro window hwindow hany
  obtain ⟨tab, htab, hlength⟩ := any_eq_true.mp hany
  exact of_decide_eq_true hlength (h.shown window hwindow tab htab).length_eq

theorem strandingEntries_not_arranged :
    ∃ app, run step new strandingEntries = some app ∧ ¬app.Arranged := by
  have hstranded : (run step new strandingEntries).any hasStranded = true := by
    decide +kernel
  obtain ⟨app, hrun, happ⟩ := (Option.any_eq_true ..).mp hstranded
  refine ⟨app, hrun, fun harranged => ?_⟩
  rw [harranged.not_hasStranded] at happ
  cases happ

end Application

end KeyReader.Workspace
