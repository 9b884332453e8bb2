import KeyReader.Regrouping
import KeyReader.Workspace.Window

/-! What the operations of the host that only move attention leave as it was: the views of each
window, the paths, the settings view and the participants. -/

namespace KeyReader.Workspace

open Std

theorem contains_setActivity (registry : ExtTreeMap ViewId ViewParticipant) (view other : ViewId)
    (activity : ActivityLevel) :
    (setActivity registry view activity).contains other = registry.contains other := by
  unfold setActivity
  cases h : registry[view]? with
  | none => rfl
  | some participant =>
    simp only [OrderedMap.contains_eq_isSome, OrderedMap.getElem?_insert]
    split
    · rename_i heq
      rw [← heq, h]
      rfl
    · rfl

namespace ApplicationHost

def itemOf (host : ApplicationHost) (window : WindowId) (view : ViewId) :
    Option (Option WorkspaceItemDescriptor) :=
  host.windows[window]?.bind fun record => record.views[view]?

/-- The tables of `host` and `next` agree but for the order in which views were used, and the views
that were used are among `known`. -/
structure Retains (known : List ViewId) (host next : ApplicationHost) : Prop where
  windows : ∀ window, next.windows.contains window = host.windows.contains window
  items : ∀ window view, next.itemOf window view = host.itemOf window view
  paths : next.paths = host.paths
  settingsView : next.settingsView = host.settingsView
  registry : ∀ view, next.resourceRegistry.contains view = host.resourceRegistry.contains view
  viewMru : ∀ views : List ViewId, (∀ view ∈ known, view ∈ views) → views.Nodup →
    host.viewMru.Perm views → next.viewMru.Perm views

theorem Retains.refl (known : List ViewId) (host : ApplicationHost) : Retains known host host :=
  ⟨fun _ => rfl, fun _ _ => rfl, rfl, rfl, fun _ => rfl, fun _ _ _ h => h⟩

variable {known : List ViewId}

theorem Retains.trans {host next last : ApplicationHost} (h : Retains known host next)
    (h' : Retains known next last) : Retains known host last where
  windows window := (h'.windows window).trans (h.windows window)
  items window view := (h'.items window view).trans (h.items window view)
  paths := h'.paths.trans h.paths
  settingsView := h'.settingsView.trans h.settingsView
  registry view := (h'.registry view).trans (h.registry view)
  viewMru views hknown hnodup hperm := h'.viewMru views hknown hnodup
    (h.viewMru views hknown hnodup hperm)

theorem Retains.mono {more : List ViewId} {host next : ApplicationHost}
    (h : Retains known host next) (hmore : ∀ view ∈ known, view ∈ more) :
    Retains more host next :=
  { h with viewMru := fun views hknown =>
      h.viewMru views fun view hview => hknown view (hmore view hview) }

theorem contains_foldl_setActivity (entries : List (ViewId × Nat))
    (level : ViewId × Nat → ActivityLevel) (registry : ExtTreeMap ViewId ViewParticipant)
    (view : ViewId) :
    (entries.foldl (fun registry entry => setActivity registry entry.1 (level entry))
      registry).contains view = registry.contains view := by
  induction entries generalizing registry with
  | nil => rfl
  | cons entry entries ih => rw [List.foldl_cons, ih, contains_setActivity]

section refresh

variable (host : ApplicationHost)

@[simp] theorem nextId_refreshActivityLevels :
    host.refreshActivityLevels.nextId = host.nextId := rfl

@[simp] theorem windows_refreshActivityLevels :
    host.refreshActivityLevels.windows = host.windows := rfl

@[simp] theorem paths_refreshActivityLevels : host.refreshActivityLevels.paths = host.paths := rfl

@[simp] theorem settingsView_refreshActivityLevels :
    host.refreshActivityLevels.settingsView = host.settingsView := rfl

@[simp] theorem viewMru_refreshActivityLevels :
    host.refreshActivityLevels.viewMru = host.viewMru := rfl

@[simp] theorem contains_refreshActivityLevels (view : ViewId) :
    host.refreshActivityLevels.resourceRegistry.contains view =
      host.resourceRegistry.contains view :=
  contains_foldl_setActivity _ (fun entry => host.activityOf entry.2 entry.1) _ _

end refresh

theorem cons_filter_perm {views : List ViewId} {view : ViewId} (hmem : view ∈ views)
    (hnodup : views.Nodup) : (view :: views.filter (· ≠ view)).Perm views := by
  have herase : views.filter (· ≠ view) = views.erase view := by
    rw [hnodup.erase_eq_filter]
    apply List.filter_congr
    intro other _
    by_cases h : other = view <;> simp [h]
  rw [herase]
  exact (List.perm_cons_erase hmem).symm

variable (host : ApplicationHost)

theorem retains_setActiveViews {view : ViewId} (hview : view ∈ known) (visible : List ViewId) :
    Retains known host (host.setActiveViews view visible) where
  windows _ := rfl
  items _ _ := rfl
  paths := rfl
  settingsView := rfl
  registry other := contains_refreshActivityLevels _ other
  viewMru views hknown hnodup hperm := by
    have hsame : (host.viewMru.filter (· ≠ view)).Perm (views.filter (· ≠ view)) := hperm.filter _
    exact (hsame.cons view).trans (cons_filter_perm (hknown view hview) hnodup)

theorem itemOf_insert {host : ApplicationHost} {window : WindowId} {record : WindowRecord}
    (h : host.windows[window]? = some record) (active : Option ViewId) (other : WindowId)
    (view : ViewId) :
    itemOf { host with windows := host.windows.insert window { record with activeView := active } }
      other view = host.itemOf other view := by
  simp only [itemOf, OrderedMap.getElem?_insert]
  split
  · rename_i heq
    rw [← heq, h]
    rfl
  · rfl

theorem retains_setRecordActive (known : List ViewId) (window : WindowId) (view : Option ViewId) :
    Retains known host (host.setRecordActive window view) := by
  unfold setRecordActive
  cases h : host.windows[window]? with
  | none => exact .refl known host
  | some record => exact {
      windows := by
        intro other
        simp only [OrderedMap.contains_eq_isSome, OrderedMap.getElem?_insert]
        split
        · rename_i heq
          rw [← heq, h]
          rfl
        · rfl
      items := itemOf_insert h view
      paths := rfl
      settingsView := rfl
      registry := fun _ => rfl
      viewMru := fun _ _ _ hperm => hperm }

theorem retains_selectWorkspaceTabViews (window : WindowId) {view : ViewId} (hview : view ∈ known)
    (visible : List ViewId) :
    Retains known host (host.selectWorkspaceTabViews window view visible) :=
  (retains_setRecordActive host known window (some view)).trans
    (retains_setActiveViews _ hview visible)

theorem retains_idleWorkspaceView (known : List ViewId) (view : ViewId) :
    Retains known host (host.idleWorkspaceView view) := by
  unfold idleWorkspaceView
  split
  · exact {
      windows := fun _ => rfl
      items := fun _ _ => rfl
      paths := rfl
      settingsView := rfl
      registry := fun other => contains_setActivity _ view other _
      viewMru := fun _ _ _ hperm => hperm }
  · exact .refl known host

theorem retains_take (known : List ViewId) : Retains known host host.take.2 :=
  ⟨fun _ => rfl, fun _ _ => rfl, rfl, rfl, fun _ => rfl, fun _ _ _ h => h⟩

@[simp] theorem nextId_setActiveViews (view : ViewId) (visible : List ViewId) :
    (host.setActiveViews view visible).nextId = host.nextId := rfl

@[simp] theorem nextId_setRecordActive (window : WindowId) (view : Option ViewId) :
    (host.setRecordActive window view).nextId = host.nextId := by
  unfold setRecordActive
  split <;> rfl

@[simp] theorem nextId_selectWorkspaceTabViews (window : WindowId) (view : ViewId)
    (visible : List ViewId) :
    (host.selectWorkspaceTabViews window view visible).nextId = host.nextId :=
  nextId_setRecordActive host window (some view)

@[simp] theorem nextId_idleWorkspaceView (view : ViewId) :
    (host.idleWorkspaceView view).nextId = host.nextId := by
  unfold idleWorkspaceView
  split <;> rfl

theorem nextId_take {host : ApplicationHost} (h : host.nextId < Machine.u64Max) :
    host.take.2.nextId = host.nextId + 1 :=
  Nat.mod_eq_of_lt (by omega)

end ApplicationHost

end KeyReader.Workspace

/-! What holds of a tab and of a window whatever is done to them, and the operations that keep every
view of a window. -/

namespace KeyReader.Workspace

open ApplicationHost (Retains)

variable {tab next : WorkspaceTab}

namespace WorkspaceTab

def viewIds (tab : WorkspaceTab) : List ViewId := tab.views.map (·.view.id)

structure Grounded (tab : WorkspaceTab) : Prop where
  active : tab.layout.activeView ∈ tab.viewIds
  shown : ∀ view ∈ tab.visibleViews, view ∈ tab.viewIds
  distinct : tab.visibleViews.Nodup

structure Faithful (tab : WorkspaceTab) : Prop where
  supported : tab.layout.Supported
  shown : tab.viewIds.Perm tab.visibleViews

variable {view : ViewId}

theorem slot_eq_some {slot : WorkspaceViewSlot} (h : tab.slot view = some slot) :
    slot ∈ tab.views ∧ slot.view.id = view := by
  unfold WorkspaceTab.slot at h
  exact ⟨List.mem_of_find?_eq_some h, by simpa using List.find?_some h⟩

theorem slot_of_mem (h : view ∈ tab.viewIds) :
    ∃ slot, tab.slot view = some slot ∧ slot ∈ tab.views ∧ slot.view.id = view := by
  obtain ⟨slot, hmem, hid⟩ := List.mem_map.mp h
  have hsome : (tab.slot view).isSome := List.find?_isSome.mpr ⟨slot, hmem, decide_eq_true hid⟩
  obtain ⟨found, hfound⟩ := Option.isSome_iff_exists.mp hsome
  exact ⟨found, hfound, slot_eq_some hfound⟩

theorem containsView_iff : tab.containsView view ↔ view ∈ tab.viewIds := by
  constructor
  · intro h
    obtain ⟨slot, hslot⟩ := Option.isSome_iff_exists.mp h
    obtain ⟨hmem, hid⟩ := slot_eq_some hslot
    exact List.mem_map.mpr ⟨slot, hmem, hid⟩
  · intro h
    obtain ⟨slot, hslot, -⟩ := slot_of_mem h
    exact Option.isSome_iff_exists.mpr ⟨slot, hslot⟩

theorem Grounded.activeSlot (h : tab.Grounded) :
    ∃ slot, tab.activeSlot = some slot ∧ slot ∈ tab.views ∧
      slot.view.id = tab.layout.activeView :=
  slot_of_mem h.active

theorem splitViews_eq_some {first second : ViewId} {ratio : ℚ}
    (h : tab.splitViews = some (first, second, ratio)) :
    ∃ axis, tab.layout.content = .split axis ratio (.view first) (.view second) := by
  unfold splitViews at h
  split at h
  · rename_i axis _ _ _ hcontent
    cases h
    exact ⟨axis, hcontent⟩
  · cases h

theorem visibleViews_of_split {first second : ViewId} {ratio : ℚ}
    (h : tab.splitViews = some (first, second, ratio)) : tab.visibleViews = [first, second] := by
  obtain ⟨axis, hcontent⟩ := splitViews_eq_some h
  rw [visibleViews, WorkspaceTabLayout.visibleViews, hcontent]
  rfl

theorem Faithful.visibleViews_of_not_split (h : tab.Faithful) (hsplit : ¬tab.isSplit) :
    tab.visibleViews = [tab.layout.activeView] := by
  obtain ⟨layout, views⟩ := tab
  cases h.supported with
  | single => rfl
  | pair => exact absurd rfl hsplit

theorem grounded_single (id : TabId) (slot : WorkspaceViewSlot) : (single id slot).Grounded :=
  ⟨List.mem_singleton_self _, fun _ h => h, List.nodup_singleton _⟩

theorem faithful_single (id : TabId) (slot : WorkspaceViewSlot) : (single id slot).Faithful :=
  ⟨.single id _, .refl _⟩

theorem viewIds_perm (h : next.views.Perm tab.views) : next.viewIds.Perm tab.viewIds := h.map _

theorem Grounded.replace (h : tab.Grounded) (hviews : next.views.Perm tab.views)
    (hactive : next.layout.activeView ∈ tab.viewIds)
    (hshown : next.visibleViews.Perm tab.visibleViews) : next.Grounded where
  active := (viewIds_perm hviews).mem_iff.mpr hactive
  shown view hview := (viewIds_perm hviews).mem_iff.mpr (h.shown view (hshown.mem_iff.mp hview))
  distinct := hshown.nodup_iff.mpr h.distinct

theorem Grounded.activate (h : tab.Grounded) (hview : view ∈ tab.viewIds) :
    (tab.activate view).Grounded :=
  h.replace (.refl _) hview (.refl _)

theorem Faithful.activate (h : tab.Faithful) (hview : view ∈ tab.viewIds) :
    (tab.activate view).Faithful :=
  ⟨h.supported.activate (h.shown.mem_iff.mp hview), h.shown⟩

end WorkspaceTab

namespace WorkspaceWindow

def slots (window : WorkspaceWindow) : List WorkspaceViewSlot := window.tabs.flatMap (·.views)

def viewIds (window : WorkspaceWindow) : List ViewId := window.slots.map (·.view.id)

structure Grounded (window : WorkspaceWindow) : Prop where
  active : window.activeTab < window.tabs.length
  tabs : ∀ tab ∈ window.tabs, tab.Grounded

def Faithful (window : WorkspaceWindow) : Prop := ∀ tab ∈ window.tabs, tab.Faithful

variable {window : WorkspaceWindow}

theorem mem_slots {slot : WorkspaceViewSlot} (htab : tab ∈ window.tabs) (h : slot ∈ tab.views) :
    slot ∈ window.slots :=
  List.mem_flatMap.mpr ⟨tab, htab, h⟩

theorem Grounded.currentTab (h : window.Grounded) :
    ∃ tab, window.currentTab = some tab ∧ tab ∈ window.tabs ∧ tab.Grounded := by
  obtain ⟨tab, htab⟩ : ∃ tab, window.currentTab = some tab := ⟨_, List.getElem?_eq_getElem h.active⟩
  have hmem := List.mem_of_getElem? htab
  exact ⟨tab, htab, hmem, h.tabs tab hmem⟩

theorem Grounded.currentSlot (h : window.Grounded) :
    ∃ slot, window.currentSlot = some slot ∧ slot ∈ window.slots := by
  obtain ⟨tab, htab, hmem, hgrounded⟩ := h.currentTab
  obtain ⟨slot, hslot, hin, -⟩ := hgrounded.activeSlot
  exact ⟨slot, by rw [WorkspaceWindow.currentSlot, htab, Option.bind_some, hslot],
    mem_slots hmem hin⟩

theorem Grounded.finishTabActivation (h : window.Grounded) (host : ApplicationHost) :
    ∃ next, window.finishTabActivation host = some next ∧
      next.nextId = host.nextId ∧ Retains window.viewIds host next := by
  obtain ⟨tab, htab, hmem, hgrounded⟩ := h.currentTab
  obtain ⟨slot, hslot, hin, -⟩ := hgrounded.activeSlot
  have hview : slot.view.id ∈ window.viewIds := List.mem_map_of_mem (mem_slots hmem hin)
  refine ⟨host.selectWorkspaceTabViews window.id slot.view.id tab.visibleViews, ?_,
    ApplicationHost.nextId_selectWorkspaceTabViews .., ?_⟩
  · simp [WorkspaceWindow.finishTabActivation, htab, hslot]
  · exact ApplicationHost.retains_selectWorkspaceTabViews host window.id hview tab.visibleViews

/-- A window with the same views after some of its tabs were placed in another way. -/
structure Rearranges (before after : WorkspaceWindow) : Prop where
  id : after.id = before.id
  grounded : after.Grounded
  faithful : before.Faithful → after.Faithful
  slots : after.slots.Perm before.slots

theorem Rearranges.refl (h : window.Grounded) :
    Rearranges window window := ⟨rfl, h, fun h => h, .refl _⟩

variable {after : WorkspaceWindow}

theorem Rearranges.trans {before between : WorkspaceWindow} (h : Rearranges before between)
    (h' : Rearranges between after) : Rearranges before after where
  id := h'.id.trans h.id
  grounded := h'.grounded
  faithful hfaithful := h'.faithful (h.faithful hfaithful)
  slots := h'.slots.trans h.slots

theorem Rearranges.mem_viewIds {before : WorkspaceWindow} (h : Rearranges before after)
    {view : ViewId} : view ∈ after.viewIds ↔ view ∈ before.viewIds :=
  (h.slots.map _).mem_iff

theorem rearranges_set (hwindow : window.Grounded) {index : Nat}
    (htab : window.tabs[index]? = some tab) (hgrounded : next.Grounded)
    (hfaithful : tab.Faithful → next.Faithful) (hviews : next.views.Perm tab.views)
    {activeTab : Nat} (hactive : activeTab < window.tabs.length) :
    Rearranges window { window with tabs := window.tabs.set index next, activeTab } where
  id := rfl
  grounded := by
    refine ⟨by rwa [List.length_set], fun other hother => ?_⟩
    rcases List.mem_or_eq_of_mem_set hother with hmem | rfl
    · exact hwindow.tabs other hmem
    · exact hgrounded
  faithful := by
    intro h other hother
    rcases List.mem_or_eq_of_mem_set hother with hmem | rfl
    · exact h other hmem
    · exact hfaithful (h tab (List.mem_of_getElem? htab))
  slots := by
    have hbefore := Regrouping.items_perm (·.views) htab
    have hafter := Regrouping.items_set_perm (·.views) htab next
    exact hafter.trans ((hviews.append_right _).trans hbefore.symm)

/-- An operation that keeps the views of a window and the tables of the host. -/
def Reorganises (window : WorkspaceWindow) (host : ApplicationHost)
    (result : Option (ApplicationHost × WorkspaceWindow)) : Prop :=
  ∃ next after, result = some (next, after) ∧ Rearranges window after ∧
    host.nextId ≤ next.nextId ∧ Retains window.viewIds host next

theorem reorganises_refl (h : window.Grounded) (host : ApplicationHost) :
    Reorganises window host (some (host, window)) :=
  ⟨host, window, rfl, .refl h, le_rfl, .refl _ host⟩

theorem Rearranges.followed {between : WorkspaceWindow} (h : Rearranges window between)
    {host : ApplicationHost} {result : Option (ApplicationHost × WorkspaceWindow)}
    (hresult : Reorganises between host result) : Reorganises window host result := by
  obtain ⟨next, after, rfl, hafter, hid, hretains⟩ := hresult
  exact ⟨next, after, rfl, h.trans hafter, hid, hretains.mono fun view => h.mem_viewIds.mp⟩

theorem Rearranges.finish (h : Rearranges window after) {host between : ApplicationHost}
    (hid : host.nextId ≤ between.nextId) (hretains : Retains window.viewIds host between) :
    Reorganises window host (do
      let host ← after.finishTabActivation between
      some (host, after)) := by
  obtain ⟨next, hnext, hnextId, hlast⟩ := h.grounded.finishTabActivation between
  refine ⟨next, after, by simp [hnext], h, hid.trans hnextId.ge, hretains.trans ?_⟩
  exact hlast.mono fun view => h.mem_viewIds.mp

theorem Reorganises.bind {host : ApplicationHost}
    {result : Option (ApplicationHost × WorkspaceWindow)} (h : Reorganises window host result)
    {rest : ApplicationHost × WorkspaceWindow → Option (ApplicationHost × WorkspaceWindow)}
    (hrest : ∀ next after, after.Grounded → Reorganises after next (rest (next, after))) :
    Reorganises window host (result >>= rest) := by
  obtain ⟨next, after, rfl, hafter, hid, hretains⟩ := h
  obtain ⟨last, final, hlast, hfinal, hid', hretains'⟩ := hrest next after hafter.grounded
  refine ⟨last, final, hlast, hafter.trans hfinal, hid.trans hid', hretains.trans ?_⟩
  exact hretains'.mono fun view => hafter.mem_viewIds.mp

end WorkspaceWindow

end KeyReader.Workspace
