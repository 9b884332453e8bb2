import KeyReader.Workspace.Arranged

/-! Every run of the application in which the window is told of each document that the host records
keeps the tables of the host true, and shows each document that is asked for. -/

namespace KeyReader.Workspace

open Transition List

variable {view : ViewId}

namespace WorkspaceWindow

variable {window after : WorkspaceWindow} {host next : ApplicationHost}

theorem activateTab_shows (hview : view ∈ window.viewIds)
    (hafter : window.activateTab host view = some (next, after)) :
    ∃ slot, after.currentSlot = some slot ∧ slot.view.id = view := by
  obtain ⟨slot, hslot, rfl⟩ := mem_map.mp hview
  obtain ⟨tab, htab, hin⟩ := mem_flatMap.mp hslot
  have hcontains : tab.containsView slot.view.id = true :=
    WorkspaceTab.containsView_iff.mpr (mem_map_of_mem hin)
  obtain ⟨index, hindex⟩ : ∃ index, window.tabs.findIdx? (·.containsView slot.view.id) = some index :=
    ⟨_, List.findIdx?_eq_some_of_exists ⟨tab, htab, hcontains⟩⟩
  obtain ⟨hlt, hfound, -⟩ := List.findIdx?_eq_some_iff_getElem.mp hindex
  have hlength : ¬(window.tabs.set index (window.tabs[index].activate slot.view.id)).length ≤ index := by
    rw [length_set]
    exact Nat.not_le.mpr hlt
  simp only [activateTab, hindex, activateTabView, List.getElem?_eq_getElem hlt, hfound, if_true,
    activateTabIndex, hlength, if_false, Option.bind_eq_bind, Option.bind_eq_some_iff] at hafter
  obtain ⟨between, -, hsame⟩ := hafter
  obtain ⟨-, rfl⟩ := Prod.mk.inj (Option.some.inj hsame)
  obtain ⟨shown, hshown, -, hid⟩ :=
    WorkspaceTab.slot_of_mem (WorkspaceTab.containsView_iff.mp hfound)
  refine ⟨shown, ?_, hid⟩
  simp only [currentSlot, currentTab, List.getElem?_set_self hlt, Option.bind_some]
  exact hshown

end WorkspaceWindow

namespace Application

variable {app after : Application}

def Displays (app : Application) (path : PathBuf) : Prop :=
  ∃ window ∈ app.windows, ∃ slot, window.currentSlot = some slot ∧ slot.Shows path

theorem Grounded.entry_unique (h : app.Grounded) {first second : WindowId × WorkspaceViewSlot}
    (hfirst : first ∈ app.entries) (hsecond : second ∈ app.entries)
    (hsame : first.2.view.id = second.2.view.id) : first = second :=
  inj_on_of_nodup_map h.views hfirst hsecond hsame

theorem mem_entries {window : WindowId} {slot : WorkspaceViewSlot} :
    (window, slot) ∈ app.entries ↔ ∃ opened ∈ app.windows, opened.id = window ∧
      slot ∈ opened.slots := by
  simp only [entries, mem_flatMap, WorkspaceWindow.entries, mem_map, Prod.mk.injEq]
  constructor
  · rintro ⟨opened, hopened, found, hfound, hid, rfl⟩
    exact ⟨opened, hopened, hid, hfound⟩
  · rintro ⟨opened, hopened, hid, hslot⟩
    exact ⟨opened, hopened, slot, hslot, hid, rfl⟩

variable {path : PathBuf}

theorem activateTab_displays (h : app.Grounded) (htruth : app.TellsTruth) {window : WindowId}
    (hplace : app.host.paths.lookup path = some (window, view))
    (hafter : app.activateTab window view = some after) : after.Displays path := by
  obtain ⟨slot, hmem, rfl, hshows⟩ := (htruth.paths path window view).mp hplace
  obtain ⟨opened, hopened, rfl, hslot⟩ := mem_entries.mp hmem
  obtain ⟨index, hindex⟩ := windowIndex_of_mem (mem_map_of_mem hopened)
  obtain ⟨found, hfound, hid⟩ := windowIndex_eq_some hindex
  obtain rfl := h.window_unique (mem_of_getElem? hfound) hopened hid
  have hgrounded := h.windows found hopened
  obtain ⟨next, changed, hchanged, hrearranges, -⟩ :=
    WorkspaceWindow.activateTab_spec hgrounded app.host slot.view.id
  simp only [activateTab, update, hindex, hfound, hchanged, Option.bind_eq_bind,
    Option.bind_some, Option.some.injEq] at hafter
  obtain rfl := hafter
  obtain ⟨shown, hshown, hsame⟩ := WorkspaceWindow.activateTab_shows (mem_map_of_mem hslot) hchanged
  obtain ⟨last, hlast, hin⟩ := hrearranges.grounded.currentSlot
  obtain rfl := Option.some.inj (hlast.symm.trans hshown)
  have hin := hrearranges.slots.mem_iff.mp hin
  obtain rfl : last = slot := inj_on_of_nodup_map (h.nodup_viewIds hopened) hin hslot hsame
  obtain ⟨hlt, -⟩ := List.getElem?_eq_some_iff.mp hfound
  exact ⟨changed, mem_set hlt changed, last, hshown, hshows⟩

theorem displays_set {index : Nat} {opened changed : WorkspaceWindow} {host : ApplicationHost}
    (hopened : app.windows[index]? = some opened) {slot : WorkspaceViewSlot}
    (hslot : changed.currentSlot = some slot) (hshows : slot.Shows path) :
    Displays ⟨host, app.windows.set index changed⟩ path := by
  obtain ⟨hlt, -⟩ := List.getElem?_eq_some_iff.mp hopened
  exact ⟨changed, mem_set hlt changed, slot, hslot, hshows⟩

theorem openPdf_displays (h : app.Grounded) (htruth : app.TellsTruth) {files : FileSystem}
    {source : WindowId} (hids : app.host.nextId + 4 ≤ Machine.u64Max)
    (hopens : app.OpensEmpty files source path → app.ActivePdf source ∧ app.RecordsActive source)
    (hopen : app.windowIndex source ≠ none) (hafter : app.openPdf files source path = some after) :
    after.Displays (files.normalizePath path) := by
  unfold openPdf at hafter
  obtain ⟨index, hindex⟩ := Option.ne_none_iff_exists'.mp hopen
  obtain ⟨opened, hopened, rfl⟩ := windowIndex_eq_some hindex
  have hgrounded := h.windows opened (mem_of_getElem? hopened)
  have hwindow := windowOf_eq hindex hopened
  rw [if_neg hopen] at hafter
  cases hpath : app.host.paths.lookup (files.normalizePath path) with
  | some place =>
    obtain ⟨window, view⟩ := place
    have hrecord : app.host.windows.contains window = true := by
      obtain ⟨slot, hmem, -, -⟩ := (htruth.paths _ window view).mp hpath
      obtain ⟨found, hfound, rfl, -⟩ := mem_entries.mp hmem
      exact (htruth.windows found.id).mpr (mem_map_of_mem hfound)
    simp only [hpath, hrecord, or_true, if_true] at hafter
    exact activateTab_displays h htruth hpath hafter
  | none =>
    obtain ⟨_, view, nextId, hallocate, hview, -, hhigh, ⟨id, rfl⟩, -, -⟩ :=
      @ApplicationHost.allocatePdfView_spec app.host (by omega) (some (files.normalizePath path))
    simp only [hpath, update, hindex, hopened, Option.bind_eq_bind, Option.bind_some,
      hallocate] at hafter
    split at hafter
    · rename_i hempty
      obtain ⟨hpdf, hrecords⟩ := hopens ⟨hpath, hempty⟩
      obtain ⟨record, active, hrecord, hactive, -⟩ := emptyPdfWindow_eq_true hempty
      obtain ⟨slot, hslot, -⟩ := hgrounded.currentSlot
      have hactiveSlot : app.activeSlot opened.id = some slot := by
        rw [activeSlot, hwindow, Option.bind_some, hslot]
      obtain rfl : active = slot.view.id := by
        simpa [RecordsActive, hrecord, hactive, hactiveSlot] using hrecords
      obtain ⟨reader, hreader⟩ : ∃ reader, slot.content = .pdf reader := by
        cases hkind : slot.content with
        | pdf reader => exact ⟨reader, rfl⟩
        | settings => simp [ActivePdf, hactiveSlot, hkind] at hpdf
      obtain ⟨changed, hchanged, -, -, hcurrent⟩ := WorkspaceWindow.openPdf_spec hgrounded hslot
        hreader (files.normalizePath path) ⟨id, .pdf, .file (files.normalizePath path)⟩
        (rfl : (WorkspaceViewDescriptor.mk slot.view.id (some id) .pdf).id = slot.view.id)
      simp only [Option.map_some, hrecord, hactive, Option.bind_some, hchanged,
        Option.some.injEq] at hafter
      obtain rfl := hafter
      exact displays_set hopened hcurrent ⟨rfl, id, rfl⟩
    · obtain ⟨changed, hchanged, -, -, hcurrent⟩ := WorkspaceWindow.addTab_spec hgrounded
        { app.host with nextId } ⟨some ⟨id, .pdf, .file (files.normalizePath path)⟩, view,
          .pdf ⟨some (files.normalizePath path)⟩⟩
      simp only [Option.map_some, WorkspaceWindow.addPdfTab, hchanged, Option.bind_some,
        Option.some.injEq] at hafter
      obtain rfl := hafter
      exact displays_set hopened hcurrent ⟨rfl, id, rfl⟩

theorem openPdfWindow_displays (h : app.Grounded) (htruth : app.TellsTruth) {files : FileSystem}
    (hids : app.host.nextId + 4 ≤ Machine.u64Max)
    (hafter : app.openPdfWindow files (some path) = some after) :
    after.Displays (files.normalizePath path) := by
  unfold openPdfWindow at hafter
  dsimp only at hafter
  split at hafter
  · rename_i hplace
    obtain ⟨hplace, -⟩ := Option.filter_eq_some_iff.mp hplace
    exact activateTab_displays h htruth hplace hafter
  · rw [ApplicationHost.take_eq (by omega)] at hafter
    obtain ⟨_, view, nextId, hallocate, -, -, -, ⟨id, rfl⟩, -, -⟩ :=
      @ApplicationHost.allocatePdfView_spec { app.host with nextId := app.host.nextId + 1 }
        (by dsimp only; omega) (some (files.normalizePath path))
    simp only [Option.map_some, hallocate, WorkspaceWindow.newPdf, Option.some.injEq] at hafter
    obtain rfl := hafter
    refine ⟨_, mem_concat_self, ⟨some ⟨id, .pdf, .file (files.normalizePath path)⟩, view,
        .pdf ⟨some (files.normalizePath path)⟩⟩, ?_, ⟨rfl, id, rfl⟩⟩
    simp [WorkspaceWindow.currentSlot, WorkspaceWindow.currentTab, WorkspaceTab.activeSlot,
      WorkspaceTab.slot, WorkspaceTab.single, WorkspaceTabLayout.single]

def asks (app : Application) : Surroundings × Operation → Option PathBuf
  | (around, .openPdfWindow path) => path.map around.files.normalizePath
  | (around, .openPdf window path) =>
    if app.windowIndex window = none then none else some (around.files.normalizePath path)
  | _ => none

/-- The tables of the host agree with its records of the windows, and these with the windows. -/
structure Accounted (app : Application) : Prop where
  windows : ∀ window, app.host.windows.contains window = true ↔ window ∈ app.windowIds
  views : ∀ window view item, app.host.itemOf window view = some item ↔
    ∃ slot, (window, slot) ∈ app.entries ∧ slot.view.id = view ∧ slot.item = item
  paths : ∀ path window view, app.host.paths.lookup path = some (window, view) →
    ∃ slot, (window, slot) ∈ app.entries ∧ slot.view.id = view ∧ slot.Shows path
  once : ∀ path, ∀ first ∈ app.entries, ∀ second ∈ app.entries,
    first.2.content = .pdf ⟨some path⟩ → second.2.content = .pdf ⟨some path⟩ → first = second
  settings : ∀ window view, app.host.settingsView = some (window, view) ↔
    ∃ slot, (window, slot) ∈ app.entries ∧ slot.view.id = view ∧ slot.content = .settings
  registry : ∀ view, app.host.resourceRegistry.contains view = true ↔
    ∃ window item, app.host.itemOf window view = some item
  viewMru : ∀ view, view ∈ app.host.viewMru ↔ ∃ window item, app.host.itemOf window view = some item
  nodup : app.host.viewMru.Nodup
  window_unique : ∀ view window other item item', app.host.itemOf window view = some item →
    app.host.itemOf other view = some item' → window = other

theorem mem_viewIds_iff (htruth : app.TellsTruth) :
    view ∈ app.viewIds ↔ ∃ window item, app.host.itemOf window view = some item := by
  constructor
  · intro hview
    obtain ⟨⟨window, slot⟩, hmem, rfl⟩ := mem_map.mp hview
    exact ⟨window, slot.item, (htruth.items window _ _).mpr ⟨slot, hmem, rfl, rfl⟩⟩
  · rintro ⟨window, item, hitem⟩
    exact ((htruth.items window view item).mp hitem).mem_viewIds

theorem accounted (h : app.Grounded) (htruth : app.TellsTruth) : app.Accounted where
  windows := htruth.windows
  views := htruth.items
  paths path window view := (htruth.paths path window view).mp
  once := by
    intro path first hfirst second hsecond hshown hshown'
    have hshows : ∀ entry ∈ app.entries, entry.2.content = .pdf ⟨some path⟩ →
        app.host.paths.lookup path = some (entry.1, entry.2.view.id) := by
      intro entry hentry hcontent
      refine (htruth.paths path _ _).mpr ⟨entry.2, hentry, rfl, ?_⟩
      exact (htruth.honest entry hentry).shows_of_content hcontent
    have hplace := (hshows first hfirst hshown).symm.trans (hshows second hsecond hshown')
    exact h.entry_unique hfirst hsecond (Prod.mk.inj (Option.some.inj hplace)).2
  settings := htruth.settings
  registry view := (htruth.registry view).trans (mem_viewIds_iff htruth)
  viewMru _ := htruth.viewMru.mem_iff.trans (mem_viewIds_iff htruth)
  nodup := htruth.viewMru.nodup_iff.mpr h.views
  window_unique := by
    intro view window other item item' hitem hitem'
    obtain ⟨slot, hmem, rfl, -⟩ := (htruth.items _ _ _).mp hitem
    obtain ⟨slot', hmem', hsame, -⟩ := (htruth.items _ _ _).mp hitem'
    exact (Prod.mk.inj (h.entry_unique hmem hmem' hsame.symm)).1

/-- The host knows the active view of the window, which is a document view, when a document is
opened into it. -/
def Heard (app : Application) (entry : Surroundings × Operation) : Prop :=
  app.host.nextId + 4 ≤ Machine.u64Max ∧ entry.2.IfOpens fun window path =>
    app.OpensEmpty entry.1.files window path → app.ActivePdf window ∧ app.RecordsActive window

instance decidableHeard (app : Application) (entry : Surroundings × Operation) :
    Decidable (app.Heard entry) := inferInstanceAs (Decidable (_ ∧ _))

variable {entry : Surroundings × Operation}

theorem Heard.ready (h : app.Heard entry) : app.Ready entry :=
  ⟨h.1, h.2.imp fun _ _ hopens hempty _ => (hopens hempty).2⟩

theorem Heard.told (h : app.Heard entry) : app.Told entry :=
  h.2.imp fun _ _ hopens hempty => (hopens hempty).1

theorem asks_displays (h : app.Grounded) (htruth : app.TellsTruth) (hheard : app.Heard entry)
    (hafter : app.step entry = some after) (hasks : app.asks entry = some path) :
    after.Displays path := by
  obtain ⟨around, operation⟩ := entry
  cases operation with
  | openPdfWindow asked =>
    obtain ⟨asked, rfl, rfl⟩ := Option.map_eq_some_iff.mp hasks
    exact openPdfWindow_displays h htruth hheard.1 hafter
  | openPdf window asked =>
    simp only [asks, Option.ite_none_left_eq_some, Option.some.injEq] at hasks
    obtain ⟨hopen, rfl⟩ := hasks
    exact openPdf_displays h htruth hheard.1 hheard.2 hopen hafter
  | _ => cases hasks

theorem tellsTruth_new : new.TellsTruth where
  windows := by simp [new, ApplicationHost.new, windowIds]
  items := by simp [new, ApplicationHost.new, ApplicationHost.itemOf, Entries.Held, entries]
  paths := by simp [new, ApplicationHost.new, Entries.Held, entries]
  settings := by simp [new, ApplicationHost.new, Entries.Held, entries]
  registry := by simp [new, ApplicationHost.new, Entries.viewIds, entries]
  viewMru := .refl _
  honest := by simp [new, entries]

/-- A run in which the windows hear of what is opened in them does not panic, keeps the tables true,
and shows what is asked for. -/
theorem run_accounted (entries : List (Surroundings × Operation)) (h : Along step Heard new entries) :
    ∃ app, run step new entries = some app ∧ app.Accounted ∧ ∀ entry, app.Heard entry →
      ∃ after, app.step entry = some after ∧ after.Accounted ∧
        ∀ path, app.asks entry = some path → after.Displays path := by
  have hstep : ∀ (app : Application) entry, app.Grounded ∧ app.TellsTruth → app.Heard entry →
      ∃ after, app.step entry = some after ∧ after.Grounded ∧ after.TellsTruth := by
    rintro app entry ⟨hgrounded, htruth⟩ hheard
    obtain ⟨after, hafter, hcarries⟩ := step_carries hgrounded entry hheard.ready
    exact ⟨after, hafter, hcarries.grounded, hcarries.truthful hheard.told htruth⟩
  obtain ⟨app, hrun, hgrounded, htruth⟩ := run_succeeds hstep ⟨grounded_new, tellsTruth_new⟩ h
  refine ⟨app, hrun, accounted hgrounded htruth, fun entry hheard => ?_⟩
  obtain ⟨after, hafter, hgrounded', htruth'⟩ := hstep app entry ⟨hgrounded, htruth⟩ hheard
  exact ⟨after, hafter, accounted hgrounded' htruth', fun path =>
    asks_displays hgrounded htruth hheard hafter⟩

def heardEntries : List (Surroundings × Operation) :=
  [(calm, .openPdfWindow none), (calm, .openPdfWindow (some firstPath)), (calm, .openSettings (some 1)),
    (calm, .openPdf 1 secondPath), (calm, .tabDrop 1 ⟨4, 7⟩ 0), (calm, .closeTab 1 1),
    (calm, .openPdf 1 firstPath)]

theorem heardEntries_accounted : ∃ app, run step new heardEntries = some app ∧ app.Accounted := by
  obtain ⟨app, hrun, haccounted, -⟩ := run_accounted heardEntries (by decide +kernel)
  exact ⟨app, hrun, haccounted⟩

def unheardEntries : List (Surroundings × Operation) :=
  [(calm, .openPdfWindow none), (calm, .openPdfWindow (some firstPath)), (calm, .openSettings (some 1)),
    (calm, .openPdf 4 secondPath)]

/-- The host takes a view of settings for the document. -/
theorem unheardEntries_not_accounted :
    ∃ app, run step new unheardEntries = some app ∧ ¬app.Accounted := by
  have hplace : (run step new unheardEntries).any (fun app =>
      decide (app.host.paths.lookup secondPath = some (4, 8)) &&
        app.entries.all fun entry => decide (entry.2.content ≠ .pdf ⟨some secondPath⟩)) = true := by
    decide +kernel
  obtain ⟨app, hrun, happ⟩ := (Option.any_eq_true ..).mp hplace
  obtain ⟨hlookup, hcontents⟩ := Bool.and_eq_true_iff.mp happ
  refine ⟨app, hrun, fun haccounted => ?_⟩
  obtain ⟨slot, hmem, -, hshows⟩ := haccounted.paths _ _ _ (of_decide_eq_true hlookup)
  exact of_decide_eq_true (all_eq_true.mp hcontents _ hmem) hshows.1

end Application

end KeyReader.Workspace
