import KeyReader.Workspace.Operations

/-! The operations that open windows, tabs and documents. -/

namespace KeyReader.Workspace

open Std List
open ApplicationHost (Retains)
open WorkspaceWindow (Trades Reorganises Rearranges)

/-- A host that is about to register a slot: it may have shown the view before, and has noted it if
it is the settings view. -/
structure Announces (window : WindowId) (slot : WorkspaceViewSlot) (base host : ApplicationHost) :
    Prop where
  windows : ∀ other, host.windows.contains other = base.windows.contains other
  items : ∀ other view, host.itemOf other view = base.itemOf other view
  paths : host.paths = base.paths
  settings : slot.content = .settings → host.settingsView = some (window, slot.view.id)
  settingsView : slot.content ≠ .settings → host.settingsView = base.settingsView
  registry : ∀ view, host.resourceRegistry.contains view = base.resourceRegistry.contains view
  viewMru : host.viewMru.filter (· ≠ slot.view.id) = base.viewMru.filter (· ≠ slot.view.id)

namespace Announces

variable {window : WindowId} {slot : WorkspaceViewSlot} {base host : ApplicationHost}

theorem taken (hcontent : slot.content ≠ .settings) (nextId : Nat) :
    Announces window slot base { base with nextId } where
  windows _ := rfl
  items _ _ := rfl
  paths := rfl
  settings h := absurd h hcontent
  settingsView _ := rfl
  registry _ := rfl
  viewMru := rfl

theorem noted (hcontent : slot.content = .settings) (nextId : Nat) : Announces window slot base
      { base with nextId, settingsView := some (window, slot.view.id) } where
  windows _ := rfl
  items _ _ := rfl
  paths := rfl
  settings _ := rfl
  settingsView h := absurd hcontent h
  registry _ := rfl
  viewMru := rfl

theorem selected (h : Announces window slot base host) (visible : List ViewId) :
    Announces window slot base
      (host.selectWorkspaceTabViews window slot.view.id visible) := by
  have hretains := ApplicationHost.retains_selectWorkspaceTabViews host window
    (mem_singleton_self slot.view.id) visible
  have hmru : (host.selectWorkspaceTabViews window slot.view.id visible).viewMru =
      slot.view.id :: host.viewMru.filter (· ≠ slot.view.id) := by
    unfold ApplicationHost.selectWorkspaceTabViews ApplicationHost.setRecordActive
    split <;> rfl
  exact {
    windows := fun other => (hretains.windows other).trans (h.windows other)
    items := fun other view => (hretains.items other view).trans (h.items other view)
    paths := hretains.paths.trans h.paths
    settings := fun hcontent => hretains.settingsView.trans (h.settings hcontent)
    settingsView := fun hcontent => hretains.settingsView.trans (h.settingsView hcontent)
    registry := fun view => (hretains.registry view).trans (h.registry view)
    viewMru := by
      rw [hmru, filter_cons_of_neg (by simp), filter_filter, ← h.viewMru]
      simp }

end Announces

variable (host : ApplicationHost)

theorem selectWorkspaceTabViews_settingsView (window : WindowId) (view : ViewId)
    (visible : List ViewId) (settingsView : Option (WindowId × ViewId)) :
    { host.selectWorkspaceTabViews window view visible with settingsView } =
      ({ host with settingsView } : ApplicationHost).selectWorkspaceTabViews window view visible := by
  unfold ApplicationHost.selectWorkspaceTabViews ApplicationHost.setRecordActive
  dsimp only
  split <;> rfl

variable {window : WindowId} {slot : WorkspaceViewSlot} {base host : ApplicationHost}
  {files : FileSystem}

theorem registers_insertWindow (h : Announces window slot base host) (hhonest : slot.Honest)
    (hnormal : ∀ path, slot.Shows path → files.normalizePath path = path)
    (hfresh : base.windows.contains window = false) :
    Registers window slot base ((host.insertWindow files window slot.item slot.view).setActiveViews
      slot.view.id [slot.view.id]) := by
  let between : ApplicationHost := { host with
    windows := host.windows.insert window
      ⟨some slot.view.id, (∅ : ExtTreeMap _ _).insert slot.view.id slot.item⟩ }
  have hnone : host.windows[window]? = none := by
    rw [← h.windows, OrderedMap.contains_eq_isSome] at hfresh
    exact Option.isSome_eq_false_iff.mp hfresh |> Option.isNone_iff_eq_none.mp
  have hitems : ∀ other view, between.itemOf other view =
      if other = window ∧ slot.view.id = view then some slot.item else base.itemOf other view := by
    intro other view
    rw [← h.items]
    simp only [between, ApplicationHost.itemOf, OrderedMap.getElem?_insert]
    by_cases hother : window = other
    · subst hother
      simp only [if_true, Option.bind_some, OrderedMap.getElem?_insert, hnone, true_and,
        Option.bind_none]
      split <;> simp
    · simp [hother, Ne.symm hother]
  exact ApplicationHost.registers_of_record files slot hhonest hnormal hitems h.paths h.settings
    h.settingsView h.registry h.viewMru rfl

theorem registers_registerView (h : Announces window slot base host) (hhonest : slot.Honest)
    (hnormal : ∀ path, slot.Shows path → files.normalizePath path = path)
    (hrecord : base.windows.contains window = true) :
    Registers window slot base ((host.registerView files window slot.item slot.view).setActiveViews
      slot.view.id [slot.view.id]) := by
  obtain ⟨record, hrecord⟩ : ∃ record, host.windows[window]? = some record := by
    rw [← h.windows, OrderedMap.contains_eq_isSome] at hrecord
    exact Option.isSome_iff_exists.mp hrecord
  let between : ApplicationHost := { host with
    windows := host.windows.insert window
      ⟨some slot.view.id, record.views.insert slot.view.id slot.item⟩ }
  have hitems : ∀ other view, between.itemOf other view =
      if other = window ∧ slot.view.id = view then some slot.item else base.itemOf other view := by
    intro other view
    rw [← h.items]
    exact ApplicationHost.itemOf_insert_view hrecord _ slot.view.id slot.item other view
  refine ApplicationHost.registers_of_record files slot hhonest hnormal hitems h.paths h.settings
    h.settingsView h.registry h.viewMru ?_
  rw [ApplicationHost.registerView, hrecord]

variable {host : ApplicationHost}

namespace ApplicationHost

theorem take_eq (h : host.nextId < Machine.u64Max) :
    host.take = (host.nextId, { host with nextId := host.nextId + 1 }) := by
  rw [take, Nat.mod_eq_of_lt (by omega)]

theorem allocatePdfView_spec (h : host.nextId + 2 ≤ Machine.u64Max) (path : Option PathBuf) :
    ∃ item view nextId, host.allocatePdfView path = ((item, view), { host with nextId }) ∧
      view.id = host.nextId ∧ host.nextId < nextId ∧ nextId ≤ host.nextId + 2 ∧
      (∃ id, item = path.map fun path => ⟨id, .pdf, .file path⟩) ∧
      WorkspaceViewSlot.Honest ⟨item, view, .pdf ⟨path⟩⟩ ∧
      ∀ found, WorkspaceViewSlot.Shows ⟨item, view, .pdf ⟨path⟩⟩ found → path = some found := by
  unfold allocatePdfView
  rw [take_eq (by omega)]
  cases path with
  | none =>
    refine ⟨none, _, _, rfl, rfl, by omega, by omega, ⟨0, rfl⟩, .empty _, ?_⟩
    rintro found ⟨hcontent, -⟩
    simp at hcontent
  | some path =>
    dsimp only
    rw [take_eq (by dsimp only; omega)]
    refine ⟨_, _, _, rfl, rfl, by dsimp only; omega, by dsimp only; omega, ⟨_, rfl⟩,
      .shows ⟨rfl, _, rfl⟩, ?_⟩
    rintro found ⟨hcontent, -⟩
    simpa using hcontent

theorem allocateSettingsView_eq (h : host.nextId < Machine.u64Max) : host.allocateSettingsView =
      (⟨host.nextId, none, .settings⟩, { host with nextId := host.nextId + 1 }) := by
  rw [allocateSettingsView, take_eq h]

end ApplicationHost

section

variable (files : FileSystem)

theorem nextId_registerViewPath (item : Option WorkspaceItemDescriptor) (window : WindowId)
    (view : ViewId) :
    (host.registerViewPath files item window view).nextId = host.nextId := by
  unfold ApplicationHost.registerViewPath
  split <;> rfl

section

variable (window : WindowId) (item : Option WorkspaceItemDescriptor)

variable (view : WorkspaceViewDescriptor)

theorem nextId_insertWindow : (host.insertWindow files window item view).nextId = host.nextId :=
  nextId_registerViewPath ..

theorem nextId_registerView : (host.registerView files window item view).nextId = host.nextId := by
  refine (nextId_registerViewPath ..).trans ?_
  split <;> rfl

theorem contains_insertWindow (other : WindowId) :
    (host.insertWindow files window item view).windows.contains other =
      (decide (window = other) || host.windows.contains other) := by
  have hwindows : (host.insertWindow files window item view).windows = host.windows.insert window
      ⟨some view.id, (∅ : ExtTreeMap _ _).insert view.id item⟩ :=
    ApplicationHost.windows_registerViewPath files item view.id
  rw [hwindows, OrderedMap.contains_eq_isSome, OrderedMap.getElem?_insert,
    OrderedMap.contains_eq_isSome]
  by_cases h : window = other <;> simp [h]

theorem contains_registerView (other : WindowId) :
    (host.registerView files window item view).windows.contains other =
      host.windows.contains other := by
  have hpath : ∀ between : ApplicationHost,
      ((between.registerViewPath files item window view.id).registerParticipant view).windows =
        between.windows := fun between => ApplicationHost.windows_registerViewPath files item view.id
  rw [ApplicationHost.registerView, hpath]
  cases h : host.windows[window]? with
  | none => rfl
  | some record => exact ApplicationHost.contains_insert_record h _ other

end

end

namespace Application

variable {app : Application} {tidy told : Prop} {lost : List ViewId} {next : ApplicationHost}

variable {slot : WorkspaceViewSlot}

theorem carries_addWindow (h : app.Grounded) {window : WorkspaceWindow}
    (hslots : window.slots = [slot]) (hgrounded : window.Grounded) (hfaithful : window.Faithful)
    (hid : app.host.nextId ≤ window.id) (hidNext : window.id < next.nextId)
    (hview : app.host.nextId ≤ slot.view.id) (hviewNext : slot.view.id < next.nextId)
    (hcontains : ∀ other, next.windows.contains other =
      (decide (window.id = other) || app.host.windows.contains other))
    (hregisters : app.TellsTruth → Registers window.id slot app.host next) (hhonest : slot.Honest)
    (hshown : app.TellsTruth → ∀ path, slot.Shows path → app.host.paths.lookup path = none)
    (hsettings : app.TellsTruth → slot.content = .settings → app.host.settingsView = none) :
    Carries tidy told lost app ⟨next, app.windows ++ [window]⟩ := by
  have hentries : (entries ⟨next, app.windows ++ [window]⟩).Perm
      ((window.id, slot) :: app.entries) := by
    have hperm : (entries ⟨next, app.windows ++ [window]⟩).Perm (window.entries ++ app.entries) :=
      Regrouping.items_concat_perm _ window
    rwa [WorkspaceWindow.entries, hslots] at hperm
  have hviews : (viewIds ⟨next, app.windows ++ [window]⟩).Perm
      (slot.view.id :: app.viewIds) := Entries.perm_viewIds hentries
  have hnew : slot.view.id ∉ app.viewIds := fun hmem =>
    absurd (h.freshViews _ hmem) (Nat.not_lt.mpr hview)
  have hnewWindow : window.id ∉ app.windowIds := fun hmem =>
    absurd (h.freshWindows _ hmem) (Nat.not_lt.mpr hid)
  have hids : windowIds ⟨next, app.windows ++ [window]⟩ = app.windowIds ++ [window.id] :=
    map_append ..
  exact {
    grounded := {
      windows := fun found hfound => by
        rcases mem_append.mp hfound with hfound | hfound
        · exact h.windows found hfound
        · exact mem_singleton.mp hfound ▸ hgrounded
      ids := by
        rw [hids, nodup_append]
        refine ⟨h.ids, nodup_singleton _, fun id hmem other hother heq => ?_⟩
        exact hnewWindow (mem_singleton.mp hother ▸ heq ▸ hmem)
      views := hviews.nodup_iff.mpr (nodup_cons.mpr ⟨hnew, h.views⟩)
      freshViews := fun view hmem => by
        rcases mem_cons.mp (hviews.mem_iff.mp hmem) with rfl | hmem
        · exact hviewNext
        · exact (h.freshViews view hmem).trans (hview.trans_lt hviewNext)
      freshWindows := fun found hfound => by
        rw [hids, mem_append, mem_singleton] at hfound
        rcases hfound with hfound | rfl
        · exact (h.freshWindows found hfound).trans (hid.trans_lt hidNext)
        · exact hidNext }
    faithful := fun _ hbefore found hfound => by
      rcases mem_append.mp hfound with hfound | hfound
      · exact hbefore found hfound
      · exact mem_singleton.mp hfound ▸ hfaithful
    truthful := fun _ htruth => by
      have hwindows : ∀ other, next.windows.contains other = true ↔
          other ∈ app.windowIds ++ [window.id] := by
        intro other
        rw [hcontains, Bool.or_eq_true, decide_eq_true_eq, htruth.windows, mem_append,
          mem_singleton, eq_comm (a := window.id), or_comm]
      have hall := htruth.registers (hregisters htruth) hwindows hnew hhonest (hshown htruth)
        (hsettings htruth)
      rw [← hids] at hall
      exact hall.perm hentries.symm
    kept := fun view hmem => .inl (hviews.mem_iff.mpr (mem_cons_of_mem _ hmem)) }

variable {window : WindowId}

theorem carries_addSingle (h : app.Grounded) (files : FileSystem) {tabId : TabId}
    (hannounces : Announces window slot app.host host) (hid : app.host.nextId ≤ window)
    (hidNext : window < host.nextId) (hview : app.host.nextId ≤ slot.view.id)
    (hviewNext : slot.view.id < host.nextId) (hhonest : slot.Honest)
    (hnormal : ∀ path, slot.Shows path → files.normalizePath path = path)
    (hshown : app.TellsTruth → ∀ path, slot.Shows path → app.host.paths.lookup path = none)
    (hsettings : app.TellsTruth → slot.content = .settings → app.host.settingsView = none) :
    Carries tidy told lost app
      (addWindow ⟨host, app.windows⟩ files slot.item slot.view ⟨window, [.single tabId slot], 0⟩) := by
  have hnext : ((host.insertWindow files window slot.item slot.view).setActiveViews slot.view.id
      [slot.view.id]).nextId = host.nextId := nextId_insertWindow ..
  have hslots : WorkspaceWindow.slots ⟨window, [.single tabId slot], 0⟩ = [slot] := rfl
  refine carries_addWindow h hslots ⟨Nat.one_pos, ?_⟩ ?_ hid (hnext ▸ hidNext) hview
    (hnext ▸ hviewNext) (fun other => ?_) (fun htruth => ?_) hhonest hshown hsettings
  · exact fun tab htab => mem_singleton.mp htab ▸ WorkspaceTab.grounded_single ..
  · exact fun tab htab => mem_singleton.mp htab ▸ WorkspaceTab.faithful_single ..
  · exact (contains_insertWindow ..).trans (by rw [hannounces.windows])
  · refine registers_insertWindow hannounces hhonest hnormal ?_
    rw [← Bool.not_eq_true, htruth.windows]
    exact fun hmem => absurd (h.freshWindows _ hmem) (Nat.not_lt.mpr hid)

theorem carries_openPdfWindow (h : app.Grounded) (files : FileSystem) (path : Option PathBuf)
    (hids : app.host.nextId + 4 ≤ Machine.u64Max) :
    ∃ after, app.openPdfWindow files path = some after ∧ Carries tidy told lost app after := by
  unfold openPdfWindow
  dsimp only
  split
  · exact carries_update h _ fun opened hopened _ =>
      WorkspaceWindow.activateTab_spec hopened app.host _
  · rename_i hexisting
    rw [ApplicationHost.take_eq (by omega)]
    obtain ⟨item, view, nextId, hallocate, hview, hlow, hhigh, -, hhonest, hshows⟩ :=
      @ApplicationHost.allocatePdfView_spec { app.host with nextId := app.host.nextId + 1 }
        (by dsimp only; omega) (path.map files.normalizePath)
    rw [hallocate]
    dsimp only at hlow hhigh ⊢
    replace hview : @Eq Nat view.id (app.host.nextId + 1) := hview
    rw [WorkspaceWindow.newPdf, ApplicationHost.take_eq (by dsimp only; omega)]
    have hannounces := @Announces.taken app.host.nextId
      ⟨item, view, .pdf ⟨path.map files.normalizePath⟩⟩ app.host (by simp) (nextId + 1)
    refine ⟨_, rfl, carries_addSingle h files hannounces le_rfl ?_ ?_ ?_ hhonest ?_ ?_ (by simp)⟩
    · show app.host.nextId < nextId + 1
      omega
    · exact (Nat.le_succ _).trans hview.ge
    · exact Nat.lt_succ_of_lt (hview.trans_lt hlow)
    · intro found hfound
      obtain ⟨given, rfl, rfl⟩ := Option.map_eq_some_iff.mp (hshows found hfound)
      exact files.normalizePath_normalizePath given
    · intro htruth found hfound
      obtain ⟨given, rfl, rfl⟩ := Option.map_eq_some_iff.mp (hshows found hfound)
      exact htruth.lookup_of_filter hexisting

variable {index : Nat} {opened : WorkspaceWindow}

theorem carries_registerTab (h : app.Grounded) (files : FileSystem) {after : WorkspaceWindow}
    (hopened : app.windows[index]? = some opened) (htrades : Trades [] [slot] opened after)
    (hfaithful : opened.Faithful → after.Faithful)
    (hannounces : Announces opened.id slot app.host host) (hnext : app.host.nextId ≤ host.nextId)
    (hview : app.host.nextId ≤ slot.view.id) (hviewNext : slot.view.id < host.nextId)
    (hhonest : slot.Honest) (hnormal : ∀ path, slot.Shows path → files.normalizePath path = path)
    (hshown : ∀ path, slot.Shows path → app.host.paths.lookup path = none)
    (hsettings : ∀ entries, Truthful app.host app.windowIds entries → slot.content = .settings →
      app.host.settingsView = none)
    (visible : List ViewId) : Carries tidy told lost app
      ⟨((host.selectWorkspaceTabViews opened.id slot.view.id visible).registerView files opened.id
        slot.item slot.view).setActiveViews slot.view.id [slot.view.id],
        app.windows.set index after⟩ := by
  have hid : (((host.selectWorkspaceTabViews opened.id slot.view.id visible).registerView files
      opened.id slot.item slot.view).setActiveViews slot.view.id [slot.view.id]).nextId =
        host.nextId := by
    rw [ApplicationHost.nextId_setActiveViews, nextId_registerView,
      ApplicationHost.nextId_selectWorkspaceTabViews]
  have hnot : ∀ rest : Entries, (∀ view ∈ rest.viewIds, view < app.host.nextId) →
      slot.view.id ∉ rest.viewIds := fun rest hrest hmem =>
    absurd (hrest _ hmem) (Nat.not_lt.mpr hview)
  refine carries_trade h hopened htrades (hid ▸ hnext) (fun _ => hfaithful) (by simp) ?_ ?_ ?_
  · exact forall_mem_singleton.mpr (hid ▸ hviewNext)
  · exact fun rest hnodup hrest => nodup_cons.mpr ⟨hnot rest hrest, hnodup⟩
  · intro _ rest _ hrest _ htruth
    have hmem : opened.id ∈ app.windowIds := mem_windowIds hopened
    have hselected := hannounces.selected visible
    have hregisters := registers_registerView hselected hhonest hnormal ((htruth.windows _).mpr hmem)
    refine htruth.registers hregisters (fun other => ?_) (hnot rest hrest) hhonest hshown
      (hsettings _ htruth)
    rw [ApplicationHost.setActiveViews, ApplicationHost.windows_refreshActivityLevels,
      contains_registerView, hselected.windows, htruth.windows]

section

variable (app : Application) (window : WindowId)

/-- The window with a name, if it is open. -/
def windowOf : Option WorkspaceWindow :=
  (app.windowIndex window).bind fun index => app.windows[index]?

def activeSlot : Option WorkspaceViewSlot :=
  (app.windowOf window).bind (·.currentSlot)

/-- The host takes an open from the window for one into its active view, which it takes for empty. -/
def OpensEmpty (files : FileSystem) (source : WindowId) (path : PathBuf) : Prop :=
  app.host.paths.lookup (files.normalizePath path) = none ∧ app.host.emptyPdfWindow source = true

/-- The active view of the window is a document view. -/
def ActivePdf : Prop :=
  ((app.activeSlot window).any fun slot => decide (slot.content ≠ .settings)) = true

def RecordsActive : Prop :=
  (app.host.windows[window]?.bind (·.activeView)) = (app.activeSlot window).map (·.view.id)

def ActiveSplit : Prop :=
  (((app.windowOf window).bind (·.currentTab)).any (·.isSplit)) = true

end

theorem truthful_taken {windows : List WindowId} {entries : Entries}
    (h : Truthful host windows entries) (nextId : Nat) :
    Truthful { host with nextId } windows entries :=
  { h with }

theorem nextId_recordOpened (window : WindowId) (item : WorkspaceItemDescriptor) (path : PathBuf)
    (view : ViewId) : (host.recordOpened window item path view).nextId = host.nextId := by
  unfold ApplicationHost.recordOpened
  split
  · split <;> rfl
  · rfl

theorem emptyPdfWindow_eq_true (h : host.emptyPdfWindow window = true) :
    ∃ record active, host.windows[window]? = some record ∧
      record.activeView = some active ∧ record.views[active]? = some none := by
  unfold ApplicationHost.emptyPdfWindow at h
  cases hrecord : host.windows[window]? with
  | none => simp [hrecord] at h
  | some record =>
    rw [hrecord] at h
    cases hactive : record.activeView with
    | none => simp [hactive] at h
    | some active =>
      simp only [hactive, Option.any_some] at h
      exact ⟨record, active, rfl, hactive, of_decide_eq_true h⟩

theorem carries_openEmpty (h : app.Grounded) {after : WorkspaceWindow}
    (hopened : app.windows[index]? = some opened) (hcontent : slot.content ≠ .settings)
    {record : WindowRecord} (hrecord : app.host.windows[opened.id]? = some record)
    (hactive : record.activeView = some slot.view.id)
    (hempty : record.views[slot.view.id]? = some none) {path : PathBuf}
    (hpath : app.host.paths.lookup path = none) {filled : WorkspaceViewSlot}
    {item : WorkspaceItemDescriptor} (hitem : filled.item = some item)
    (hsame : filled.view.id = slot.view.id) (hshows : filled.Shows path)
    (htrades : Trades [slot] [filled] opened after)
    (hfaithful : tidy → opened.Faithful → after.Faithful) {nextId : Nat}
    (hnext : app.host.nextId ≤ nextId) (hslot : slot ∈ opened.slots) : Carries tidy told lost app
      ⟨ApplicationHost.recordOpened { app.host with nextId } opened.id item path slot.view.id,
        app.windows.set index after⟩ := by
  have hid : (ApplicationHost.recordOpened { app.host with nextId } opened.id item path
      slot.view.id).nextId = nextId := nextId_recordOpened ..
  have hview := h.freshViews _ (mem_viewIds (mem_of_getElem? hopened) (mem_map_of_mem hslot))
  refine carries_trade h hopened htrades (hnext.trans hid.ge) hfaithful ?_ ?_ ?_ ?_
  · exact forall_mem_singleton.mpr (.inl (by simp [hsame]))
  · exact forall_mem_singleton.mpr (by rw [hsame, hid]; exact hview.trans_le hnext)
  · intro rest hnodup _
    show (filled.view.id :: Entries.viewIds rest).Nodup
    rw [hsame]
    exact hnodup
  · intro _ rest hnodup _ _ htruth
    obtain ⟨found, hfound, hfoundItem⟩ := htruth.record
    cases hrecord.symm.trans hfound
    have hnone : slot.item = none := (Option.some.inj (hempty.symm.trans hfoundItem)).symm
    exact (truthful_taken htruth nextId).recordOpened (nodup_cons.mp hnodup).1 hrecord hactive
      hnone hcontent hpath hsame hitem hshows

theorem windowOf_eq (hindex : app.windowIndex window = some index)
    (hopened : app.windows[index]? = some opened) : app.windowOf window = some opened := by
  rw [windowOf, hindex, Option.bind_some, hopened]

section

variable (h : app.Grounded)

include h

theorem carries_openPdf (files : FileSystem) (source : WindowId) (path : PathBuf)
    (hids : app.host.nextId + 4 ≤ Machine.u64Max)
    (hready : app.OpensEmpty files source path → app.ActivePdf source → app.RecordsActive source)
    (htidy : tidy → app.OpensEmpty files source path → app.ActivePdf source →
      ¬app.ActiveSplit source)
    (htold : told → app.OpensEmpty files source path → app.ActivePdf source) :
    ∃ after, app.openPdf files source path = some after ∧ Carries tidy told lost app after := by
  unfold openPdf
  cases hindex : app.windowIndex source with
  | none => exact ⟨app, rfl, .refl h⟩
  | some index =>
    obtain ⟨opened, hopened, rfl⟩ := windowIndex_eq_some hindex
    have hmem := mem_of_getElem? hopened
    have hgrounded := h.windows opened hmem
    have hwindow := windowOf_eq hindex hopened
    rw [if_neg (by simp)]
    cases hpath : app.host.paths.lookup (files.normalizePath path) with
    | some place =>
      dsimp only
      split
      · exact carries_update h _ fun opened hopened _ =>
          WorkspaceWindow.activateTab_spec hopened app.host _
      · exact ⟨app, rfl, .refl h⟩
    | none =>
      obtain ⟨_, view, nextId, hallocate, hview, hlow, hhigh, ⟨id, rfl⟩, hhonest, hshows⟩ :=
        @ApplicationHost.allocatePdfView_spec app.host (by omega) (some (files.normalizePath path))
      simp only [update, hindex, hopened, Option.bind_eq_bind, Option.bind_some, hallocate]
      split
      · rename_i hempty
        have hopens : app.OpensEmpty files opened.id path := ⟨hpath, hempty⟩
        obtain ⟨record, active, hrecord, hactive, hnone⟩ := emptyPdfWindow_eq_true hempty
        obtain ⟨slot, hslot, hin⟩ := hgrounded.currentSlot
        have hactiveSlot : app.activeSlot opened.id = some slot := by
          rw [activeSlot, hwindow, Option.bind_some, hslot]
        simp only [hrecord, hactive, Option.bind_some, Option.map_some]
        by_cases hcontent : slot.content = .settings
        · have hnot : ¬app.ActivePdf opened.id := by simp [ActivePdf, hactiveSlot, hcontent]
          rw [WorkspaceWindow.openPdf_settings hslot hcontent]
          refine ⟨_, rfl, carries_trade h hopened (trades_of_rearranges (.refl hgrounded)) ?_
            (fun _ h => h) (by simp) (by simp) (fun _ hnodup _ => hnodup) ?_⟩
          · rw [nextId_recordOpened]
            exact hlow.le
          · exact fun htoldOpen => absurd (htold htoldOpen hopens) hnot
        · have hpdf : app.ActivePdf opened.id := by simp [ActivePdf, hactiveSlot, hcontent]
          obtain rfl : active = slot.view.id := by
            have hrecords := hready hopens hpdf
            simpa [RecordsActive, hrecord, hactive, hactiveSlot] using hrecords
          obtain ⟨reader, hreader⟩ : ∃ reader, slot.content = .pdf reader := by
            cases hkind : slot.content with
            | pdf reader => exact ⟨reader, rfl⟩
            | settings => exact absurd hkind hcontent
          let item : WorkspaceItemDescriptor := ⟨id, .pdf, .file (files.normalizePath path)⟩
          let filled : WorkspaceViewSlot := ⟨some item, ⟨slot.view.id, some id, .pdf⟩,
            .pdf ⟨some (files.normalizePath path)⟩⟩
          have hsame : filled.view.id = slot.view.id := rfl
          have hitem : filled.item = some item := rfl
          have hfilled : filled.Shows (files.normalizePath path) := ⟨rfl, id, rfl⟩
          obtain ⟨after, hafter, htrades, hfaithful, -⟩ := WorkspaceWindow.openPdf_spec hgrounded
            hslot hreader (files.normalizePath path) item hsame
          rw [hafter]
          refine ⟨_, rfl, carries_openEmpty h hopened hcontent hrecord hactive hnone hpath hitem
            hsame hfilled htrades ?_ hlow.le hin⟩
          intro htidyOpen
          refine hfaithful fun tab htab hsplit => htidy htidyOpen hopens hpdf ?_
          rw [ActiveSplit, hwindow, Option.bind_some, htab]
          exact hsplit
      · obtain ⟨after, hafter, htrades, hfaithful, -⟩ := WorkspaceWindow.addTab_spec hgrounded
          { app.host with nextId } ⟨_, view, .pdf ⟨some (files.normalizePath path)⟩⟩
        rw [WorkspaceWindow.addPdfTab, hafter, ApplicationHost.take_eq (by dsimp only; omega)]
        refine ⟨_, rfl, carries_registerTab h files hopened htrades hfaithful
          (.taken (by simp) (nextId + 1)) ?_ hview.ge ?_ hhonest ?_ ?_ (by simp) [view.id]⟩
        · exact hlow.le.trans (Nat.le_succ _)
        · exact Nat.lt_succ_of_lt (hview.trans_lt hlow)
        · intro found hfound
          cases hshows found hfound
          exact files.normalizePath_normalizePath path
        · intro found hfound
          cases hshows found hfound
          exact hpath

theorem carries_taken {nextId : Nat} (hnext : app.host.nextId ≤ nextId) :
    Carries tidy told lost app ⟨{ app.host with nextId }, app.windows⟩ where
  grounded := { h with
    freshViews := fun view hview => (h.freshViews view hview).trans_le hnext
    freshWindows := fun window hwindow => (h.freshWindows window hwindow).trans_le hnext }
  faithful _ hfaithful := hfaithful
  truthful _ htruth := truthful_taken htruth nextId
  kept _ hview := .inl hview

theorem carries_openSettings (files : FileSystem) (within : Option WindowId)
    (hids : app.host.nextId + 4 ≤ Machine.u64Max) :
    ∃ after, app.openSettings files within = some after ∧ Carries tidy told lost app after := by
  unfold openSettings
  split
  · split
    · exact ⟨app, rfl, .refl h⟩
    · exact carries_update h _ fun opened hopened _ =>
        WorkspaceWindow.activateTab_spec hopened app.host _
  rename_i hexisting
  split
  · rename_i window _
    rw [ApplicationHost.allocateSettingsView_eq (by omega)]
    dsimp only
    split
    · exact ⟨_, rfl, carries_taken h (Nat.le_succ _)⟩
    · rename_i hwindow
      obtain ⟨-, hopen⟩ := not_or.mp hwindow
      obtain ⟨index, hindex⟩ := Option.ne_none_iff_exists'.mp hopen
      obtain ⟨opened, hopened, rfl⟩ := windowIndex_eq_some hindex
      have hgrounded := h.windows opened (mem_of_getElem? hopened)
      let slot : WorkspaceViewSlot := ⟨none, ⟨app.host.nextId, none, .settings⟩, .settings⟩
      obtain ⟨after, hafter, htrades, hfaithful, -⟩ := WorkspaceWindow.addTab_spec hgrounded
        { app.host with nextId := app.host.nextId + 1 } slot
      have hsame : windowIndex ⟨{ app.host with nextId := app.host.nextId + 1 }, app.windows⟩
          opened.id = some index := hindex
      simp only [update, hsame, hopened, Option.bind_eq_bind, Option.bind_some,
        WorkspaceWindow.addSettingsTab]
      rw [show WorkspaceWindow.addTab _ _ _ = _ from hafter,
        ApplicationHost.take_eq (by dsimp only; omega)]
      simp only [Option.bind_some]
      rw [selectWorkspaceTabViews_settingsView]
      have hannounces := @Announces.noted opened.id slot app.host rfl (app.host.nextId + 2)
      refine ⟨_, rfl, carries_registerTab h files hopened htrades hfaithful hannounces ?_
        le_rfl ?_ (.settings _) ?_ ?_ ?_ [slot.view.id]⟩
      · exact Nat.le_add_right ..
      · exact Nat.lt_add_of_pos_right (by omega)
      · rintro path ⟨hcontent, -⟩
        cases hcontent
      · rintro path ⟨hcontent, -⟩
        cases hcontent
      · exact fun entries htruth _ => htruth.settingsView_of_filter hexisting
  · rw [ApplicationHost.take_eq (by omega)]
    dsimp only
    rw [ApplicationHost.allocateSettingsView_eq (by dsimp only; omega), WorkspaceWindow.newSettings,
      ApplicationHost.take_eq (by dsimp only; omega)]
    let slot : WorkspaceViewSlot := ⟨none, ⟨app.host.nextId + 1, none, .settings⟩, .settings⟩
    have hannounces := @Announces.noted app.host.nextId slot app.host rfl (app.host.nextId + 3)
    refine ⟨_, rfl, carries_addSingle h files hannounces le_rfl ?_ ?_ ?_ (.settings _) ?_ ?_ ?_⟩
    · show app.host.nextId < app.host.nextId + 3
      omega
    · exact Nat.le_succ _
    · show app.host.nextId + 1 < app.host.nextId + 3
      omega
    · rintro path ⟨hcontent, -⟩
      cases hcontent
    · rintro _ path ⟨hcontent, -⟩
      cases hcontent
    · exact fun htruth _ => htruth.settingsView_of_filter hexisting

theorem carries_handleTabDrop (drafts : ViewId → Bool) (window : WindowId) (drag : TabDragPayload)
    (insertion : Nat) :
    ∃ after, app.handleTabDrop drafts window drag insertion = some after ∧
      Carries tidy told lost app after := by
  unfold handleTabDrop
  split
  · exact ⟨app, rfl, .refl h⟩
  rename_i hopen
  split
  · exact carries_update h _ fun opened hopened _ =>
      WorkspaceWindow.reorderTab_spec hopened app.host _ _
  · rename_i hother
    obtain ⟨index, hindex⟩ := Option.ne_none_iff_exists'.mp hopen
    exact carries_transferTab h drafts hother drag.tab insertion hindex

theorem carries_splitOwn (window : WindowId) (source : TabId)
    (droppedOnLeft : Bool) : ∃ after, app.splitOwn window source droppedOnLeft = some after ∧
      Carries tidy told lost app after := by
  refine carries_update h _ fun opened hopened hnodup => ?_
  split
  · exact WorkspaceWindow.reorganises_refl hopened app.host
  · exact WorkspaceWindow.splitOnSide_spec hopened hnodup app.host _ _

theorem carries_splitDropped (window : WindowId) (target source : TabId)
    (droppedOnLeft : Bool) : ∃ after, app.splitDropped window target source droppedOnLeft =
      some after ∧ Carries tidy told lost app after := by
  refine carries_update h _ fun opened hopened hnodup => ?_
  split
  · rename_i targetIndex sourceIndex htarget _
    obtain ⟨hlt, -⟩ := List.findIdx?_eq_some_iff_getElem.mp htarget
    have hshown : Rearranges opened { opened with activeTab := targetIndex } :=
      ⟨rfl, ⟨hlt, hopened.tabs⟩, fun h => h, .refl _⟩
    exact hshown.followed (WorkspaceWindow.splitOnSide_spec hshown.grounded hnodup app.host _ _)
  · exact WorkspaceWindow.reorganises_refl hopened app.host

theorem carries_splitFromDrop (drafts : ViewId → Bool) (window : WindowId) (drag : TabDragPayload)
    (droppedOnLeft : Bool) :
    ∃ after, app.splitFromDrop drafts window drag droppedOnLeft = some after ∧
      Carries tidy told lost app after := by
  unfold splitFromDrop
  cases hindex : app.windowIndex window with
  | none => exact ⟨app, rfl, .refl h⟩
  | some index =>
    obtain ⟨opened, hopened, -⟩ := windowIndex_eq_some hindex
    obtain ⟨tab, htab, -, -⟩ := (h.windows opened (mem_of_getElem? hopened)).currentTab
    simp only [hopened, htab, Option.bind_eq_bind, Option.bind_some]
    split
    · exact ⟨app, rfl, .refl h⟩
    split
    · exact carries_splitOwn h window drag.tab droppedOnLeft
    · obtain ⟨between, hbetween, hdropped⟩ :=
        carries_handleTabDrop h drafts window drag opened.tabs.length
      obtain ⟨after, hafter, hsplit⟩ :=
        carries_splitDropped hdropped.grounded window tab.layout.id drag.tab droppedOnLeft
      rw [hbetween, Option.bind_some]
      exact ⟨after, hafter, hdropped.toPasses.carries hsplit⟩

end

end Application

end KeyReader.Workspace
