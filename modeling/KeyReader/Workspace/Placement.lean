import KeyReader.Workspace.Tabs
import Mathlib.Tactic.Linarith

/-! The operations on a window that keep all of its views: they activate, split, separate and
reorder. -/

namespace KeyReader.Workspace

open List Option

open ApplicationHost (Retains)

namespace WorkspaceWindow

variable {window : WorkspaceWindow}

section

variable (hwindow : window.Grounded)

include hwindow

variable (host : ApplicationHost)

theorem activateTabIndex_spec (index : Nat) :
    Reorganises window host (window.activateTabIndex host index) := by
  unfold activateTabIndex
  split
  · exact reorganises_refl hwindow host
  · rename_i hindex
    have hafter : Rearranges window { window with activeTab := index } :=
      ⟨rfl, ⟨Nat.lt_of_not_le hindex, hwindow.tabs⟩, fun h => h, .refl _⟩
    exact hafter.finish le_rfl (.refl _ host)

theorem activateTabView_spec (index : Nat)
    (view : ViewId) : Reorganises window host (window.activateTabView host index view) := by
  unfold activateTabView
  cases htab : window.tabs[index]? with
  | none => exact reorganises_refl hwindow host
  | some tab =>
    dsimp only
    split
    · rename_i hcontains
      have hview := WorkspaceTab.containsView_iff.mp hcontains
      have hgrounded := (hwindow.tabs tab (mem_of_getElem? htab)).activate hview
      have hset := rearranges_set hwindow htab hgrounded (fun h => h.activate hview) (.refl _)
        hwindow.active
      exact hset.followed (activateTabIndex_spec hset.grounded host index)
    · exact reorganises_refl hwindow host

theorem activateTab_spec (view : ViewId) :
    Reorganises window host (window.activateTab host view) := by
  unfold activateTab
  cases window.tabs.findIdx? (·.containsView view) with
  | none => exact reorganises_refl hwindow host
  | some index => exact activateTabView_spec hwindow host index view

theorem activationChanged_spec (isActive : Bool) :
    Reorganises window host ((window.activationChanged host isActive).map (·, window)) := by
  obtain ⟨tab, htab, hmem, hgrounded⟩ := hwindow.currentTab
  obtain ⟨slot, hslot, hin, -⟩ := hgrounded.activeSlot
  have hview : slot.view.id ∈ window.viewIds := mem_map_of_mem (mem_slots hmem hin)
  cases isActive with
  | false =>
    refine ⟨host.idleWorkspaceView slot.view.id, window, ?_, .refl hwindow, ?_,
      ApplicationHost.retains_idleWorkspaceView ..⟩
    · simp [activationChanged, htab, hslot]
    · simp
  | true =>
    refine ⟨host.setActiveViews slot.view.id tab.visibleViews, window, ?_, .refl hwindow, ?_,
      ApplicationHost.retains_setActiveViews host hview _⟩
    · simp [activationChanged, htab, hslot]
    · simp

theorem setSplitRatio_spec (ratio : ℚ) :
    Reorganises window host ((window.setSplitRatio ratio).map (host, ·)) := by
  obtain ⟨tab, htab, hmem, hgrounded⟩ := hwindow.currentTab
  have hviews : (tab.setSplitRatio ratio).views = tab.views := by
    unfold WorkspaceTab.setSplitRatio
    split <;> rfl
  have hshown : (tab.setSplitRatio ratio).visibleViews = tab.visibleViews := by
    unfold WorkspaceTab.setSplitRatio
    split
    · rename_i hcontent
      simp [WorkspaceTab.place, WorkspaceTab.visibleViews, WorkspaceTabLayout.visibleViews,
        ContentPlacement.viewIds, hcontent]
    · rfl
  have hactive : (tab.setSplitRatio ratio).layout.activeView = tab.layout.activeView := by
    unfold WorkspaceTab.setSplitRatio
    split <;> rfl
  have hlow : (1 / 10 : ℚ) ≤ clampRatio ratio (1 / 5) (4 / 5) :=
    le_trans (by norm_num) (le_max_left ..)
  have hhigh : clampRatio ratio (1 / 5) (4 / 5) ≤ 9 / 10 :=
    max_le (by norm_num) (le_trans (min_le_right ..) (by norm_num))
  have hfaithful : tab.Faithful → (tab.setSplitRatio ratio).Faithful := by
    obtain ⟨layout, views⟩ := tab
    rintro ⟨hsupported, hperm⟩
    refine ⟨?_, by rwa [hshown, WorkspaceTab.viewIds, hviews]⟩
    cases hsupported with
    | single => exact .single ..
    | pair _ _ hne heither => exact .pair hlow hhigh hne heither
  have hset := rearranges_set hwindow htab
    (hgrounded.replace (.of_eq hviews) (hactive ▸ hgrounded.active) (.of_eq hshown)) hfaithful
    (.of_eq hviews) hwindow.active
  exact ⟨host, _, by simp [setSplitRatio, htab], hset, le_rfl, .refl _ host⟩

theorem activateSplitView_spec
    (view : ViewId) : Reorganises window host (window.activateSplitView host view) := by
  obtain ⟨tab, htab, hmem, hgrounded⟩ := hwindow.currentTab
  obtain ⟨slot, hslot, -, -⟩ := hgrounded.activeSlot
  simp only [activateSplitView, htab, hslot, bind_eq_bind, bind_some]
  split
  · exact reorganises_refl hwindow host
  · rename_i hcontains
    have hview := WorkspaceTab.containsView_iff.mp (by simpa using hcontains)
    split
    · exact reorganises_refl hwindow host
    · have hset := rearranges_set hwindow htab (hgrounded.activate hview)
        (fun h => h.activate hview) (.refl _) hwindow.active
      exact hset.finish le_rfl (.refl _ host)

theorem swapSplitViews_spec : Reorganises window host (window.swapSplitViews host) := by
  obtain ⟨tab, htab, hmem, hgrounded⟩ := hwindow.currentTab
  simp only [swapSplitViews, htab, bind_eq_bind, bind_some]
  split
  · exact reorganises_refl hwindow host
  · rename_i first second ratio hsplit
    let swapped := tab.place (.split .horizontal (1 - ratio) (.view second) (.view first))
    have hswap : swapped.visibleViews.Perm tab.visibleViews :=
      WorkspaceTab.visibleViews_of_split hsplit ▸ .swap first second []
    have hfaithful : tab.Faithful → swapped.Faithful := by
      obtain ⟨layout, views⟩ := tab
      rintro ⟨hsupported, hperm⟩
      refine ⟨?_, hperm.trans hswap.symm⟩
      cases hsupported with
      | single => cases hsplit
      | pair hlow hhigh hne hactive =>
        cases hsplit
        exact .pair (by linarith) (by linarith) hne.symm hactive.symm
    have hplaced : swapped.Grounded := hgrounded.replace (.refl _) hgrounded.active hswap
    have hset := rearranges_set hwindow htab hplaced hfaithful (.refl _) hwindow.active
    exact hset.finish le_rfl (.refl _ host)

end

theorem getElem?_eraseIdx_other {tabs : List WorkspaceTab} {index other : Nat} (h : other ≠ index) :
    (tabs.eraseIdx other)[if other < index then index - 1 else index]? = tabs[index]? := by
  rw [List.getElem?_eraseIdx]
  split
  · rename_i hless
    rw [if_neg (by omega)]
    congr 1
    omega
  · rw [if_pos (by omega)]

theorem splitWithTab_spec (hwindow : window.Grounded) (hnodup : window.viewIds.Nodup)
    (host : ApplicationHost) (otherIndex : Nat) :
    Reorganises window host (window.splitWithTab host otherIndex) := by
  unfold splitWithTab
  split
  · exact reorganises_refl hwindow host
  rename_i hindex
  obtain ⟨hlength, hindex⟩ := not_or.mp hindex
  obtain ⟨tab, htab, hmem, hgrounded⟩ := hwindow.currentTab
  obtain ⟨other, hother⟩ : ∃ other, window.tabs[otherIndex]? = some other :=
    ⟨_, List.getElem?_eq_getElem (Nat.lt_of_not_le hlength)⟩
  obtain ⟨slot, hslot, hin, hid⟩ := hgrounded.activeSlot
  have hotherGrounded := hwindow.tabs other (mem_of_getElem? hother)
  simp only [htab, hother, hslot, bind_eq_bind, bind_some]
  split
  · exact reorganises_refl hwindow host
  rename_i hsplit
  obtain ⟨htabSplit, hotherSplit⟩ := not_or.mp hsplit
  have hplace := (getElem?_eraseIdx_other hindex).trans htab
  obtain ⟨hactive, -⟩ := List.getElem?_eq_some_iff.mp hplace
  -- The views of the window: those of the two tabs, and the rest.
  have hslots := (Regrouping.items_perm (·.views) hother).trans
    ((Regrouping.items_perm (·.views) hplace).append_left _)
  have hviews : slot.view.id ∈ tab.viewIds := mem_map_of_mem hin
  have hne : slot.view.id ≠ other.layout.activeView := by
    have hids := (List.Perm.map (fun slot : WorkspaceViewSlot => slot.view.id) hslots).nodup_iff.mp
      hnodup
    simp only [map_append, nodup_append] at hids
    exact fun heq => hids.2.2 _ hotherGrounded.active _ (mem_append_left _ hviews) heq.symm
  obtain ⟨layout, hlayout, hsupported, -, hlayoutActive, hshown⟩ :=
    @WorkspaceTabLayout.splitPair_eq_some tab.layout.id .horizontal (1 / 2) _ _ _ hne (.inl rfl)
  rw [hlayout]
  have hids : WorkspaceTab.viewIds ⟨layout, tab.views ++ other.views⟩ =
      tab.viewIds ++ other.viewIds := map_append ..
  have hjoined : WorkspaceTab.Grounded ⟨layout, tab.views ++ other.views⟩ := by
    refine ⟨?_, ?_, hsupported.nodup⟩
    · rw [hids, hlayoutActive]
      exact mem_append_left _ hviews
    · intro view hview
      replace hview : view ∈ layout.content.viewIds := hview
      rw [hshown] at hview
      rw [hids]
      rcases mem_pair.mp hview with rfl | rfl
      · exact mem_append_left _ hviews
      · exact mem_append_right _ hotherGrounded.active
  apply Rearranges.finish _ le_rfl (.refl _ host)
  exact {
    id := rfl
    grounded := by
      refine ⟨by rwa [length_set], fun found hfound => ?_⟩
      rcases mem_or_eq_of_mem_set hfound with hfound | rfl
      · exact hwindow.tabs found (mem_of_mem_eraseIdx hfound)
      · exact hjoined
    faithful := by
      intro h found hfound
      rcases mem_or_eq_of_mem_set hfound with hfound | rfl
      · exact h found (mem_of_mem_eraseIdx hfound)
      · have htabFaithful := h tab hmem
        have hotherFaithful := h other (mem_of_getElem? hother)
        refine ⟨hsupported, ?_⟩
        have hperm := htabFaithful.shown.append hotherFaithful.shown
        rw [htabFaithful.visibleViews_of_not_split htabSplit,
          hotherFaithful.visibleViews_of_not_split hotherSplit] at hperm
        rw [hids, WorkspaceTab.visibleViews, WorkspaceTabLayout.visibleViews, hshown, hid]
        exact hperm
    slots := by
      have hafter := Regrouping.items_set_perm (·.views) hplace ⟨layout, tab.views ++ other.views⟩
      apply (hafter.trans _).trans hslots.symm
      rw [← append_assoc]
      exact perm_append_comm.append_right _ }

theorem splitOnSide_spec (hwindow : window.Grounded) (hnodup : window.viewIds.Nodup)
    (host : ApplicationHost) (otherIndex : Nat) (droppedOnLeft : Bool) :
    Reorganises window host (window.splitOnSide host otherIndex droppedOnLeft) := by
  apply (splitWithTab_spec hwindow hnodup host otherIndex).bind
  intro next after hafter
  obtain ⟨tab, htab, -, -⟩ := hafter.currentTab
  simp only [htab, bind_eq_bind, bind_some]
  split
  · exact swapSplitViews_spec hafter next
  · exact reorganises_refl hafter next

theorem detached_cases {first second : ViewId} (active : ViewId) (hdistinct : first ≠ second) :
    ∃ detached, (if active = first then second else first) = detached ∧
      detached ∈ [first, second] ∧ active ≠ detached ∧
      (active ∈ [first, second] → [first, second].Perm [detached, active]) := by
  by_cases h : active = first
  · refine ⟨second, if_pos h, by simp, h ▸ hdistinct, fun _ => ?_⟩
    exact h ▸ .swap second first []
  · refine ⟨first, if_neg h, by simp, h, fun hmem => ?_⟩
    obtain rfl : active = second := (mem_pair.mp hmem).resolve_left h
    exact .refl _

theorem separateSplit_spec (hwindow : window.Grounded) {host : ApplicationHost}
    (hid : host.nextId < Machine.u64Max) :
    Reorganises window host (window.separateSplit host) := by
  obtain ⟨tab, htab, hmem, hgrounded⟩ := hwindow.currentTab
  obtain ⟨slot, hslot, hin, hactive⟩ := hgrounded.activeSlot
  simp only [separateSplit, htab, bind_eq_bind, bind_some]
  split
  · exact reorganises_refl hwindow host
  rename_i first second ratio hsplit
  have hshown := WorkspaceTab.visibleViews_of_split hsplit
  have hdistinct : first ≠ second := by simpa [hshown] using hgrounded.distinct
  obtain ⟨detached, hcases, hmemShown, hne, hpair⟩ := detached_cases slot.view.id hdistinct
  obtain ⟨removed, hremoved, -, hremovedId⟩ :=
    WorkspaceTab.slot_of_mem (hgrounded.shown detached (hshown ▸ hmemShown))
  simp only [hslot, bind_some, hcases, hremoved]
  let rest : WorkspaceTab := ⟨.single tab.layout.id slot.view.id,
    tab.views.eraseIdx (tab.views.findIdx (·.view.id = detached))⟩
  have hviews : tab.views.Perm (removed :: rest.views) := Regrouping.find?_perm hremoved
  have hids : tab.viewIds.Perm (detached :: rest.viewIds) := hremovedId ▸ hviews.map _
  have hrest : slot.view.id ∈ rest.viewIds := by
    have hin := hids.mem_iff.mp (mem_map_of_mem hin)
    exact (mem_cons.mp hin).resolve_left hne
  have hrestGrounded : rest.Grounded :=
    ⟨hrest, fun view hview => mem_singleton.mp hview ▸ hrest, nodup_singleton _⟩
  have hbound : (if detached = first then window.activeTab else window.activeTab + 1) ≤
      (window.tabs.set window.activeTab rest).length := by
    have := hwindow.active
    rw [length_set]
    split <;> omega
  apply Rearranges.finish _ _ (ApplicationHost.retains_take host _)
  · exact {
      id := rfl
      grounded := by
        refine ⟨?_, fun found hfound => ?_⟩
        · have := hwindow.active
          rw [length_insertIdx_of_le_length hbound, length_set]
          dsimp only
          split <;> omega
        · rcases (mem_insertIdx hbound).mp hfound with rfl | hfound
          · exact WorkspaceTab.grounded_single ..
          rcases mem_or_eq_of_mem_set hfound with hfound | rfl
          · exact hwindow.tabs found hfound
          · exact hrestGrounded
      faithful := by
        intro h found hfound
        rcases (mem_insertIdx hbound).mp hfound with rfl | hfound
        · exact WorkspaceTab.faithful_single ..
        rcases mem_or_eq_of_mem_set hfound with hfound | rfl
        · exact h found hfound
        · refine ⟨.single .., ?_⟩
          have hperm := hids.symm.trans ((h tab hmem).shown)
          have hactive : slot.view.id ∈ [first, second] :=
            hshown ▸ (h tab hmem).shown.mem_iff.mp (mem_map_of_mem hin)
          exact (perm_cons detached).mp ((hperm.trans (.of_eq hshown)).trans (hpair hactive))
      slots := by
        have hinserted := Regrouping.items_insertIdx_perm (·.views)
          (.single host.take.1 removed) hbound
        have hset := Regrouping.items_set_perm (·.views) htab rest
        have hall := (Regrouping.items_perm (·.views) htab).trans (hviews.append_right _)
        exact (hinserted.trans (hset.cons removed)).trans hall.symm }
  · rw [ApplicationHost.nextId_take hid]
    exact Nat.le_succ _

theorem reorderDestination_lt {tabCount source insertion : Nat} (h : source < tabCount) :
    reorderDestination tabCount source insertion < tabCount := by
  unfold reorderDestination
  rw [if_neg (by omega)]
  dsimp only
  split <;> omega

theorem reorderTab_spec (hwindow : window.Grounded) (host : ApplicationHost) (tabId : TabId)
    (insertion : Nat) :
    Reorganises window host ((window.reorderTab tabId insertion).map (host, ·)) := by
  unfold reorderTab
  cases hsource : window.tabs.findIdx? (·.layout.id = tabId) with
  | none => exact reorganises_refl hwindow host
  | some source =>
    obtain ⟨hlt, -⟩ := List.findIdx?_eq_some_iff_getElem.mp hsource
    obtain ⟨tab, htab⟩ : ∃ tab, window.tabs[source]? = some tab := ⟨_, List.getElem?_eq_getElem hlt⟩
    obtain ⟨active, hactive, hmem, -⟩ := hwindow.currentTab
    dsimp only
    split
    · exact reorganises_refl hwindow host
    have hdestination : reorderDestination window.tabs.length source insertion <
        window.tabs.length := reorderDestination_lt hlt
    generalize reorderDestination window.tabs.length source insertion = destination at *
    have hbound : destination ≤ (window.tabs.eraseIdx source).length := by
      rw [length_eraseIdx_of_lt hlt]
      omega
    have hperm : ((window.tabs.eraseIdx source).insertIdx destination tab).Perm window.tabs :=
      (perm_insertIdx tab _ hbound).trans (Regrouping.perm_cons_eraseIdx htab).symm
    have hfind : ∃ found ∈ (window.tabs.eraseIdx source).insertIdx destination tab,
        decide (found.layout.id = active.layout.id) :=
      ⟨active, hperm.mem_iff.mpr hmem, by simp⟩
    have hfound := List.findIdx?_eq_some_of_exists hfind
    simp only [hactive, htab, hfound, bind_eq_bind, bind_some, map_some]
    refine ⟨host, _, rfl, ?_, le_rfl, .refl _ host⟩
    exact {
      id := rfl
      grounded := ⟨findIdx_lt_length_of_exists hfind,
        fun found hfound => hwindow.tabs found (hperm.mem_iff.mp hfound)⟩
      faithful := fun h found hfound => h found (hperm.mem_iff.mp hfound)
      slots := hperm.flatMap_right _ }

end WorkspaceWindow

end KeyReader.Workspace
