import KeyReader.Workspace.Placement

/-! The operations on a window by which views come and go. -/

namespace KeyReader.Workspace

open List

open ApplicationHost (Retains)

theorem ApplicationHost.nextId_removeWorkspaceView (host : ApplicationHost) (window : WindowId)
    (view : ViewId) (nextActive : Option ViewId) :
    (host.removeWorkspaceView window view nextActive).nextId = host.nextId := by
  unfold removeWorkspaceView
  rw [nextId_refreshActivityLevels]
  split <;> rfl

theorem ApplicationHost.nextId_transferWorkspaceViewRegistration (host : ApplicationHost)
    (source target : WindowId) (view : WorkspaceViewDescriptor) :
    (host.transferWorkspaceViewRegistration source target view).nextId = host.nextId := by
  unfold transferWorkspaceViewRegistration
  split
  · rfl
  · dsimp only
    split <;> split <;> rfl

theorem nextId_foldl {α : Type} {change : ApplicationHost → α → ApplicationHost}
    (h : ∀ host a, (change host a).nextId = host.nextId) (items : List α) (host : ApplicationHost) :
    (items.foldl change host).nextId = host.nextId := by
  induction items generalizing host with
  | nil => rfl
  | cons item items ih => exact (ih _).trans (h host item)

theorem viewIds_map_rebuildSlot (slots : List WorkspaceViewSlot) :
    (slots.map rebuildSlot).map (·.view.id) = slots.map (·.view.id) := by
  rw [map_map]
  apply map_congr_left
  intro slot _
  unfold rebuildSlot
  simp only [Function.comp_apply]
  split <;> rfl

namespace WorkspaceTab

section opened

variable (tab : WorkspaceTab) {before opened : WorkspaceViewSlot}
  (hactive : tab.activeSlot = some before) (hsame : opened.view.id = before.view.id)

include hactive

theorem openSlot_views (opened : WorkspaceViewSlot) : ∃ kept, tab.views.Perm (before :: kept) ∧
    (tab.openSlot opened).views.Perm (opened :: kept) := by
  have hplace : tab.views[tab.views.findIdx (·.view.id = tab.layout.activeView)]? = some before :=
    List.find?_eq_getElem?_findIdx.symm.trans hactive
  exact ⟨_, Regrouping.perm_cons_eraseIdx hplace, Regrouping.set_perm hplace opened⟩

include hsame

theorem openSlot_viewIds : (tab.openSlot opened).viewIds.Perm tab.viewIds := by
  obtain ⟨kept, hbefore, hafter⟩ := tab.openSlot_views hactive opened
  have hids : (tab.openSlot opened).viewIds.Perm (before.view.id :: kept.map (·.view.id)) :=
    hsame ▸ hafter.map _
  have hidsBefore : tab.viewIds.Perm (before.view.id :: kept.map (·.view.id)) := hbefore.map _
  exact hids.trans hidsBefore.symm

theorem openSlot_mem : opened.view.id ∈ (tab.openSlot opened).viewIds := by
  obtain ⟨hmem, -⟩ := slot_eq_some hactive
  rw [(tab.openSlot_viewIds hactive hsame).mem_iff, hsame]
  exact mem_map_of_mem hmem

theorem openSlot_grounded : (tab.openSlot opened).Grounded := by
  have hmem := tab.openSlot_mem hactive hsame
  exact ⟨hmem, fun view hview => mem_singleton.mp hview ▸ hmem, nodup_singleton _⟩

theorem openSlot_faithful (h : tab.Faithful) (hsplit : ¬tab.isSplit) :
    (tab.openSlot opened).Faithful := by
  refine ⟨.single .., ?_⟩
  have hids := (tab.openSlot_viewIds hactive hsame).trans h.shown
  rwa [h.visibleViews_of_not_split hsplit, ← (slot_eq_some hactive).2, ← hsame] at hids

theorem openSlot_activeSlot : (tab.openSlot opened).activeSlot = some opened := by
  obtain ⟨-, hid⟩ := slot_eq_some hactive
  have hkept : opened.view.id = tab.layout.activeView := hsame.trans hid
  have hfind := Regrouping.find?_set_findIdx hactive (decide_eq_true hkept)
  unfold activeSlot slot openSlot
  rwa [hkept]

end opened

end WorkspaceTab

namespace WorkspaceWindow

variable {window : WorkspaceWindow}

/-- A window after some of its slots were taken out and others put in. -/
structure Trades (gone added : List WorkspaceViewSlot) (before after : WorkspaceWindow) : Prop where
  id : after.id = before.id
  grounded : after.Grounded
  slots : ∃ kept, before.slots.Perm (gone ++ kept) ∧ after.slots.Perm (added ++ kept)

theorem addTab_spec (hwindow : window.Grounded) (host : ApplicationHost)
    (slot : WorkspaceViewSlot) : ∃ after, window.addTab host slot = some
        (host.take.2.selectWorkspaceTabViews window.id slot.view.id [slot.view.id], after) ∧
      Trades [] [slot] window after ∧ (window.Faithful → after.Faithful) ∧
      after.currentSlot = some slot := by
  let tab := WorkspaceTab.single host.take.1 slot
  have hactive : tab.activeSlot = some slot := by
    simp [tab, WorkspaceTab.activeSlot, WorkspaceTab.slot, WorkspaceTab.single,
      WorkspaceTabLayout.single]
  have hcurrent : (window.tabs ++ [tab])[window.tabs.length]? = some tab := by simp
  refine ⟨⟨window.id, window.tabs ++ [tab], window.tabs.length⟩, ?_, ?_, ?_, ?_⟩
  · simp only [addTab, finishTabActivation, currentTab, Option.bind_eq_bind]
    rw [hcurrent, Option.bind_some, hactive]
    rfl
  · exact {
      id := rfl
      grounded := by
        refine ⟨by simp, fun found hfound => ?_⟩
        rcases mem_append.mp hfound with hfound | hfound
        · exact hwindow.tabs found hfound
        · exact mem_singleton.mp hfound ▸ WorkspaceTab.grounded_single ..
      slots := ⟨window.slots, .refl _,
        Regrouping.items_concat_perm (fun tab : WorkspaceTab => tab.views) tab⟩ }
  · intro h found hfound
    rcases mem_append.mp hfound with hfound | hfound
    · exact h found hfound
    · exact mem_singleton.mp hfound ▸ WorkspaceTab.faithful_single ..
  · simp only [currentSlot, currentTab]
    rw [hcurrent, Option.bind_some, hactive]

variable {slot : WorkspaceViewSlot}

theorem currentSlot_eq_some (h : window.currentSlot = some slot) :
    ∃ tab, window.currentTab = some tab ∧ tab ∈ window.tabs ∧ tab.activeSlot = some slot := by
  obtain ⟨tab, htab, hslot⟩ := Option.bind_eq_some_iff.mp h
  exact ⟨tab, htab, mem_of_getElem? htab, hslot⟩

theorem openPdf_settings (hslot : window.currentSlot = some slot)
    (hcontent : slot.content = .settings) (path : PathBuf) (item : WorkspaceItemDescriptor)
    (view : WorkspaceViewDescriptor) : window.openPdf path item view = some window := by
  obtain ⟨tab, htab, -, hactive⟩ := currentSlot_eq_some hslot
  obtain ⟨item', view', content⟩ := slot
  cases hcontent
  simp [openPdf, htab, hactive]

theorem openPdf_spec (hwindow : window.Grounded) (hslot : window.currentSlot = some slot)
    {reader : PdfReader} (hcontent : slot.content = .pdf reader) (path : PathBuf)
    (item : WorkspaceItemDescriptor) {view : WorkspaceViewDescriptor}
    (hview : view.id = slot.view.id) : ∃ after, window.openPdf path item view = some after ∧
      Trades [slot] [⟨some item, view, .pdf ⟨some path⟩⟩] window after ∧
      ((∀ tab, window.currentTab = some tab → ¬tab.isSplit) → window.Faithful → after.Faithful) ∧
      after.currentSlot = some ⟨some item, view, .pdf ⟨some path⟩⟩ := by
  obtain ⟨tab, htab, hmem, hactive⟩ := currentSlot_eq_some hslot
  let opened : WorkspaceViewSlot := ⟨some item, view, .pdf ⟨some path⟩⟩
  have hsame : opened.view.id = slot.view.id := hview
  have hlt := hwindow.active
  refine ⟨{ window with tabs := window.tabs.set window.activeTab (tab.openSlot opened) },
    ?_, ?_, ?_, ?_⟩
  · obtain ⟨item', view', content⟩ := slot
    cases hcontent
    simp [openPdf, htab, hactive, opened]
  · obtain ⟨kept, hbefore, hafter⟩ := tab.openSlot_views hactive opened
    have hrest := Regrouping.items_perm (fun tab : WorkspaceTab => tab.views) htab
    have hset := Regrouping.items_set_perm (fun tab : WorkspaceTab => tab.views) htab
      (tab.openSlot opened)
    exact {
      id := rfl
      grounded := by
        refine ⟨by rwa [length_set], fun found hfound => ?_⟩
        rcases mem_or_eq_of_mem_set hfound with hfound | rfl
        · exact hwindow.tabs found hfound
        · exact tab.openSlot_grounded hactive hsame
      slots := ⟨_, hrest.trans (hbefore.append_right _), hset.trans (hafter.append_right _)⟩ }
  · intro hsplit h found hfound
    rcases mem_or_eq_of_mem_set hfound with hfound | rfl
    · exact h found hfound
    · exact tab.openSlot_faithful hactive hsame (h tab hmem) (hsplit tab htab)
  · simp only [currentSlot, currentTab, List.getElem?_set_self hlt, Option.bind_some]
    exact tab.openSlot_activeSlot hactive hsame

/-- What is left of a split that has lost a view. -/
theorem closeSplitView_spec (hwindow : window.Grounded) (host : ApplicationHost)
    (drafts : ViewId → Bool) (view : ViewId) :
    window.closeSplitView host drafts view = some (host, window) ∨
    ∃ next after removed other, window.closeSplitView host drafts view = some (next, after) ∧
      removed.view.id = view ∧ Trades [removed] [] window after ∧
      (window.Faithful → after.Faithful) ∧ next.nextId = host.nextId ∧
      Retains after.viewIds (host.removeWorkspaceView window.id view (some other)) next := by
  obtain ⟨tab, htab, hmem, hgrounded⟩ := hwindow.currentTab
  simp only [closeSplitView, htab, Option.bind_eq_bind, Option.bind_some]
  split
  · exact .inl rfl
  rename_i first second ratio hsplit
  split
  · exact .inl rfl
  rename_i hview
  have hshown := WorkspaceTab.visibleViews_of_split hsplit
  have hdistinct : first ≠ second := by simpa [hshown] using hgrounded.distinct
  obtain ⟨other, hcases, hotherMem, hne, hpair⟩ := detached_cases view hdistinct
  have hviewMem : view ∈ [first, second] := by
    rw [mem_pair]
    by_contra hnot
    exact hview (not_or.mp hnot)
  obtain ⟨removed, hremoved, -, hremovedId⟩ :=
    WorkspaceTab.slot_of_mem (hgrounded.shown view (hshown ▸ hviewMem))
  simp only [hcases, hremoved, Option.bind_some]
  split
  · exact .inl rfl
  right
  let rest : WorkspaceTab := ⟨.single tab.layout.id other,
    tab.views.eraseIdx (tab.views.findIdx (·.view.id = view))⟩
  have hviews : tab.views.Perm (removed :: rest.views) := Regrouping.find?_perm hremoved
  have hids : tab.viewIds.Perm (view :: rest.viewIds) := hremovedId ▸ hviews.map _
  have hrest : other ∈ rest.viewIds := by
    have hin := hids.mem_iff.mp (hgrounded.shown other (hshown ▸ hotherMem))
    exact (mem_cons.mp hin).resolve_left hne.symm
  have hrestGrounded : rest.Grounded :=
    ⟨hrest, fun view hview => mem_singleton.mp hview ▸ hrest, nodup_singleton _⟩
  obtain ⟨slot, hslot, -, hslotId⟩ := WorkspaceTab.slot_of_mem hrest
  let after : WorkspaceWindow := { window with tabs := window.tabs.set window.activeTab rest }
  have hafter : after.Grounded := by
    refine ⟨by simpa [after] using hwindow.active, fun found hfound => ?_⟩
    rcases mem_or_eq_of_mem_set hfound with hfound | rfl
    · exact hwindow.tabs found hfound
    · exact hrestGrounded
  obtain ⟨next, hnext, hnextId, hretains⟩ := hafter.finishTabActivation
    (host.removeWorkspaceView window.id view (some other))
  refine ⟨next, after, removed, other, ?_, hremovedId, ?_, ?_, ?_, hretains⟩
  · rw [show WorkspaceTab.slot _ other = some slot from hslot, Option.bind_some, hslotId,
      hremovedId, show finishTabActivation _ _ = some next from hnext]
    rfl
  · have hbefore := (Regrouping.items_perm (fun tab : WorkspaceTab => tab.views) htab).trans
      (hviews.append_right _)
    exact ⟨rfl, hafter, _, hbefore,
      Regrouping.items_set_perm (fun tab : WorkspaceTab => tab.views) htab rest⟩
  · intro h found hfound
    rcases mem_or_eq_of_mem_set hfound with hfound | rfl
    · exact h found hfound
    · refine ⟨.single .., ?_⟩
      have hperm := hids.symm.trans ((h tab hmem).shown.trans (.of_eq hshown))
      have hswap := (hpair hviewMem).trans (.swap view other [])
      exact (perm_cons view).mp (hperm.trans hswap)
  · rw [hnextId, ApplicationHost.nextId_removeWorkspaceView]

theorem activeIndexAfterClose_spec {tabCount active closed : Nat} (hcount : tabCount ≠ 1)
    (hactive : active < tabCount) (hclosed : closed < tabCount) :
    ∃ index, activeIndexAfterClose tabCount active closed = some index ∧
      index < tabCount - 1 := by
  unfold activeIndexAfterClose
  rw [if_neg (by omega)]
  refine ⟨_, rfl, ?_⟩
  split
  · omega
  · split <;> omega

section

variable (hwindow : window.Grounded)

include hwindow

theorem trades_eraseIdx {index activeTab : Nat} {removed : WorkspaceTab}
    (h : window.tabs[index]? = some removed) (hactive : activeTab < window.tabs.length - 1) :
    Trades removed.views [] window
      { window with tabs := window.tabs.eraseIdx index, activeTab } where
  id := rfl
  grounded := by
    obtain ⟨hlt, -⟩ := List.getElem?_eq_some_iff.mp h
    refine ⟨by rwa [length_eraseIdx_of_lt hlt], fun tab htab => ?_⟩
    exact hwindow.tabs tab (mem_of_mem_eraseIdx htab)
  slots := ⟨_, Regrouping.items_perm (fun tab : WorkspaceTab => tab.views) h, .refl _⟩

theorem closeTab_spec (host : ApplicationHost) (drafts : ViewId → Bool) (index : Nat) :
    (∃ removes, window.closeTab host drafts index = some (host, window, removes) ∧
      (removes = true → ∃ removed, window.tabs[index]? = some removed ∧ window.tabs = [removed])) ∨
    ∃ next after removed other, window.closeTab host drafts index = some (next, after, false) ∧
      window.tabs[index]? = some removed ∧ Trades removed.views [] window after ∧
      (window.Faithful → after.Faithful) ∧ next.nextId = host.nextId ∧
      Retains after.viewIds (removed.views.foldl (fun host slot =>
        host.removeWorkspaceView window.id slot.view.id (some other)) host) next := by
  unfold closeTab
  cases hremoved : window.tabs[index]? with
  | none => exact .inl ⟨false, rfl, by simp⟩
  | some removed =>
    dsimp only
    split
    · exact .inl ⟨false, rfl, by simp⟩
    split
    · rename_i hcount
      obtain ⟨only, honly⟩ := length_eq_one_iff.mp hcount
      obtain rfl : removed = only := mem_singleton.mp (honly ▸ mem_of_getElem? hremoved)
      exact .inl ⟨true, rfl, fun _ => ⟨removed, rfl, honly⟩⟩
    rename_i hcount
    right
    obtain ⟨hlt, -⟩ := List.getElem?_eq_some_iff.mp hremoved
    obtain ⟨activeTab, hindex, hactive⟩ := activeIndexAfterClose_spec hcount hwindow.active hlt
    have hafter := trades_eraseIdx hwindow hremoved hactive
    obtain ⟨tab, htab, -, hgrounded⟩ := hafter.grounded.currentTab
    obtain ⟨slot, hslot, -, -⟩ := hgrounded.activeSlot
    obtain ⟨next, hnext, hnextId, hretains⟩ := hafter.grounded.finishTabActivation
      (removed.views.foldl (fun host removed =>
        host.removeWorkspaceView window.id removed.view.id (some slot.view.id)) host)
    refine ⟨next, _, removed, slot.view.id, ?_, rfl, hafter, ?_, ?_, hretains⟩
    · simp [hindex, currentSlot, htab, hslot, hnext]
    · exact fun h tab htab => h tab (mem_of_mem_eraseIdx htab)
    · rw [hnextId]
      exact nextId_foldl (fun _ _ => ApplicationHost.nextId_removeWorkspaceView ..) _ _

/-- A window that a tab may leave, even if it was the last one. -/
theorem takeTabForTransfer_spec (host : ApplicationHost) (drafts : ViewId → Bool) (tabId : TabId) :
    window.takeTabForTransfer host drafts tabId = some (host, window, none) ∨
    ∃ next left removed, window.takeTabForTransfer host drafts tabId =
        some (next, left, some removed) ∧ removed ∈ window.tabs ∧ left.id = window.id ∧
      next.nextId = host.nextId ∧ window.slots.Perm (removed.views ++ left.slots) ∧
      (∀ tab ∈ left.tabs, tab ∈ window.tabs) ∧
      (left.tabs = [] ∧ next = host ∨ left.Grounded ∧ Retains left.viewIds host next) := by
  unfold takeTabForTransfer
  cases hindex : window.tabs.findIdx? (·.layout.id = tabId) with
  | none => exact .inl rfl
  | some index =>
    obtain ⟨hlt, -⟩ := List.findIdx?_eq_some_iff_getElem.mp hindex
    obtain ⟨removed, hremoved⟩ : ∃ removed, window.tabs[index]? = some removed :=
      ⟨_, List.getElem?_eq_getElem hlt⟩
    simp only [hremoved, Option.bind_eq_bind, Option.bind_some]
    split
    · exact .inl rfl
    right
    have hmem := mem_of_getElem? hremoved
    have hslots := Regrouping.items_perm (fun tab : WorkspaceTab => tab.views) hremoved
    have hleft : ∀ tab ∈ window.tabs.eraseIdx index, tab ∈ window.tabs :=
      fun _ => mem_of_mem_eraseIdx
    split
    · rename_i hempty
      exact ⟨host, _, removed, rfl, hmem, rfl, rfl, hslots, hleft,
        .inl ⟨isEmpty_iff.mp hempty, rfl⟩⟩
    · rename_i hsome
      have hlength := length_eraseIdx_of_lt hlt
      have hcount : window.tabs.length ≠ 1 := by
        intro hone
        rw [hone] at hlength
        exact hsome (isEmpty_iff.mpr (length_eq_zero_iff.mp hlength))
      obtain ⟨activeTab, hafterClose, hactive⟩ :=
        activeIndexAfterClose_spec hcount hwindow.active hlt
      have hafter := trades_eraseIdx hwindow hremoved hactive
      obtain ⟨next, hnext, hnextId, hretains⟩ := hafter.grounded.finishTabActivation host
      refine ⟨next, { window with tabs := window.tabs.eraseIdx index, activeTab }, removed, ?_, hmem,
        rfl, hnextId, hslots, hleft, .inr ⟨hafter.grounded, hretains⟩⟩
      rw [hafterClose, Option.bind_some, hnext]
      rfl

end

variable {tab : WorkspaceTab}

theorem rebuild_grounded (h : tab.Grounded) :
    WorkspaceTab.Grounded { tab with views := tab.views.map rebuildSlot } := by
  have hids : WorkspaceTab.viewIds { tab with views := tab.views.map rebuildSlot } = tab.viewIds :=
    viewIds_map_rebuildSlot tab.views
  exact ⟨hids ▸ h.active, fun view hview => hids ▸ h.shown view hview, h.distinct⟩

theorem rebuild_faithful (h : tab.Faithful) :
    WorkspaceTab.Faithful { tab with views := tab.views.map rebuildSlot } := by
  have hids : WorkspaceTab.viewIds { tab with views := tab.views.map rebuildSlot } = tab.viewIds :=
    viewIds_map_rebuildSlot tab.views
  exact ⟨h.supported, hids ▸ h.shown⟩

theorem insertTransferred_spec (hwindow : window.Grounded) (host : ApplicationHost)
    (source : WindowId) (htab : tab.Grounded) (insertion : Nat) :
    ∃ next after, window.insertTransferred host source tab insertion = some (next, after) ∧
      Trades [] (tab.views.map rebuildSlot) window after ∧
      (tab.Faithful → window.Faithful → after.Faithful) ∧ next.nextId = host.nextId ∧
      Retains after.viewIds (tab.views.foldl (fun host slot =>
        host.transferWorkspaceViewRegistration source window.id slot.view) host) next := by
  let moved : WorkspaceTab := { tab with views := tab.views.map rebuildSlot }
  have hbound : min insertion window.tabs.length ≤ window.tabs.length := Nat.min_le_right ..
  let after : WorkspaceWindow := { window with
    tabs := window.tabs.insertIdx (min insertion window.tabs.length) moved
    activeTab := min insertion window.tabs.length }
  have hafter : after.Grounded := by
    refine ⟨?_, fun found hfound => ?_⟩
    · simp only [after]
      rw [length_insertIdx_of_le_length hbound]
      omega
    · rcases (mem_insertIdx hbound).mp hfound with rfl | hfound
      · exact rebuild_grounded htab
      · exact hwindow.tabs found hfound
  obtain ⟨next, hnext, hnextId, hretains⟩ := hafter.finishTabActivation
    (tab.views.foldl (fun host slot =>
      host.transferWorkspaceViewRegistration source window.id slot.view) host)
  refine ⟨next, after, ?_, ⟨rfl, hafter, window.slots, .refl _, ?_⟩, ?_, ?_, hretains⟩
  · simp only [insertTransferred, Option.bind_eq_bind]
    rw [show finishTabActivation _ _ = some next from hnext]
    rfl
  · exact Regrouping.items_insertIdx_perm (fun tab : WorkspaceTab => tab.views) moved hbound
  · intro hfaithful h found hfound
    rcases (mem_insertIdx hbound).mp hfound with rfl | hfound
    · exact rebuild_faithful hfaithful
    · exact h found hfound
  · rw [hnextId]
    exact nextId_foldl (fun _ _ => ApplicationHost.nextId_transferWorkspaceViewRegistration ..) _ _

end WorkspaceWindow

end KeyReader.Workspace
