import KeyReader.Workspace.Truth

/-! The tables of the host stay true when a view is closed, moved or given a document, and when a
window is closed. -/

namespace KeyReader.Workspace

open Std ApplicationHost List Option

namespace Entries

variable {entries gone rest : Entries} {P : WorkspaceViewSlot → Prop}
  {window : WindowId} {view : ViewId}

@[simp] theorem viewIds_cons (entry : WindowId × WorkspaceViewSlot) :
    viewIds (entry :: rest) = entry.2.view.id :: viewIds rest := rfl

@[simp] theorem viewIds_append : viewIds (gone ++ rest) = viewIds gone ++ viewIds rest :=
  map_append ..

theorem held_append : Held (gone ++ rest) P window view ↔
    Held gone P window view ∨ Held rest P window view := by
  constructor
  · rintro ⟨slot, hmem, hview, hslot⟩
    rcases mem_append.mp hmem with hmem | hmem
    · exact .inl ⟨slot, hmem, hview, hslot⟩
    · exact .inr ⟨slot, hmem, hview, hslot⟩
  · rintro (⟨slot, hmem, hview, hslot⟩ | ⟨slot, hmem, hview, hslot⟩)
    · exact ⟨slot, mem_append_left _ hmem, hview, hslot⟩
    · exact ⟨slot, mem_append_right _ hmem, hview, hslot⟩

section place

variable {slot : WorkspaceViewSlot} {place : Option (WindowId × ViewId)}
  (h : ∀ other view, place = some (other, view) ↔ Held ((window, slot) :: rest) P other view)
  (hnew : slot.view.id ∉ viewIds rest)

include h hnew

theorem place_filter (other : WindowId) (view : ViewId) :
    (place.filter fun place => decide (place.2 ≠ slot.view.id)) = some (other, view) ↔
      Held rest P other view := by
  rw [filter_eq_some_iff, h, held_cons hnew]
  by_cases hview : slot.view.id = view
  · have hnot : ¬Held rest P other view := fun hheld => hnew (hview ▸ hheld.mem_viewIds)
    simp [hview, hnot]
  · simp [hview, Ne.symm hview]

theorem place_map (target other : WindowId) (view : ViewId) :
    (place.map fun place => if place.2 = slot.view.id then (target, place.2) else place) =
      some (other, view) ↔ Held ((target, slot) :: rest) P other view := by
  rw [held_cons hnew]
  cases hplace : place with
  | none =>
    have hnot := (h other view).not.mp (by simp [hplace])
    have hslot := (h window slot.view.id).not.mp (by simp [hplace])
    rw [held_cons hnew] at hnot hslot
    grind
  | some found =>
    obtain ⟨foundWindow, foundView⟩ := found
    have hfound := (h foundWindow foundView).mp hplace
    have hother := h other view
    rw [held_cons hnew] at hfound hother
    rw [hplace, some_inj, Prod.mk.injEq] at hother
    rw [map_some, some_inj]
    by_cases hfoundView : slot.view.id = foundView
    · rw [if_pos hfoundView] at hfound
      rw [if_pos hfoundView.symm, Prod.mk.injEq]
      grind
    · rw [if_neg (Ne.symm hfoundView), Prod.mk.injEq]
      have hslot := (h window slot.view.id).not.mp (by simp [hplace, Ne.symm hfoundView])
      rw [held_cons hnew] at hslot
      grind

end place

end Entries

section remove

variable {host : ApplicationHost} {window : WindowId} {record : WindowRecord}
  (h : host.windows[window]? = some record) (view : ViewId) (nextActive : Option ViewId)

include h

theorem contains_removeWorkspaceView (other : WindowId) :
    (host.removeWorkspaceView window view nextActive).windows.contains other =
      host.windows.contains other := by
  rw [removeWorkspaceView, windows_refreshActivityLevels, h]
  exact contains_insert_record h _ other

theorem itemOf_removeWorkspaceView (other : WindowId) (found : ViewId) :
    (host.removeWorkspaceView window view nextActive).itemOf other found =
      if other = window ∧ view = found then none else host.itemOf other found := by
  rw [← itemOf_erase_view h nextActive view other found, removeWorkspaceView, h]
  rfl

theorem paths_removeWorkspaceView (path : PathBuf) :
    (host.removeWorkspaceView window view nextActive).paths.lookup path =
      (host.paths.lookup path).filter fun place => decide (place.2 ≠ view) := by
  rw [removeWorkspaceView, paths_refreshActivityLevels, Table.lookup_retainValues, h]

theorem settingsView_removeWorkspaceView :
    (host.removeWorkspaceView window view nextActive).settingsView =
      host.settingsView.filter fun place => decide (place.2 ≠ view) := by
  rw [removeWorkspaceView, settingsView_refreshActivityLevels, h]

theorem contains_registry_removeWorkspaceView (found : ViewId) :
    (host.removeWorkspaceView window view nextActive).resourceRegistry.contains found =
      (decide (view ≠ found) && host.resourceRegistry.contains found) := by
  rw [removeWorkspaceView, contains_refreshActivityLevels, OrderedMap.contains_eq_isSome,
    OrderedMap.getElem?_erase, h, OrderedMap.contains_eq_isSome]
  by_cases hview : view = found <;> simp [hview]

theorem viewMru_removeWorkspaceView : (host.removeWorkspaceView window view nextActive).viewMru =
      host.viewMru.filter (· ≠ view) := by
  rw [removeWorkspaceView, viewMru_refreshActivityLevels, h]

end remove

section transfer

variable {host : ApplicationHost} {source target : WindowId} (hne : source ≠ target)
  {record other : WindowRecord} (hsource : host.windows[source]? = some record)
  (htarget : host.windows[target]? = some other) (view : WorkspaceViewDescriptor)
  {item : Option WorkspaceItemDescriptor} (hitem : record.views[view.id]? = some item)

include hne

theorem paths_transfer (path : PathBuf) :
    (host.transferWorkspaceViewRegistration source target view).paths.lookup path =
      (host.paths.lookup path).map fun place =>
        if place.2 = view.id then (target, place.2) else place := by
  unfold transferWorkspaceViewRegistration
  rw [if_neg hne]
  rw [Table.lookup_mapValues]
  split <;> split <;> rfl

theorem settingsView_transfer :
    (host.transferWorkspaceViewRegistration source target view).settingsView =
      host.settingsView.map fun place =>
        if place.2 = view.id then (target, place.2) else place := by
  have hsame : (fun place : WindowId × ViewId =>
      if place.2 = view.id then (target, place.2) else place) =
      fun place => if place.2 = view.id then (target, view.id) else place := by
    funext place
    split
    · rename_i heq
      rw [heq]
    · rfl
  rw [hsame]
  unfold transferWorkspaceViewRegistration
  rw [if_neg hne]
  dsimp only
  split <;> split <;> rfl

theorem resourceRegistry_transfer :
    (host.transferWorkspaceViewRegistration source target view).resourceRegistry =
      host.resourceRegistry := by
  unfold transferWorkspaceViewRegistration
  rw [if_neg hne]
  dsimp only
  split <;> split <;> rfl

theorem viewMru_transfer :
    (host.transferWorkspaceViewRegistration source target view).viewMru = host.viewMru := by
  unfold transferWorkspaceViewRegistration
  rw [if_neg hne]
  dsimp only
  split <;> split <;> rfl

include hsource htarget hitem

theorem windows_transfer : (host.transferWorkspaceViewRegistration source target view).windows =
      (host.windows.insert source ⟨if record.activeView = some view.id then none
        else record.activeView, record.views.erase view.id⟩).insert target
          ⟨some view.id, other.views.insert view.id item⟩ := by
  unfold transferWorkspaceViewRegistration
  rw [if_neg hne, hsource]
  simp only [OrderedMap.getElem?_insert, if_neg hne, htarget, bind_some, hitem, join_some]

theorem contains_transfer (found : WindowId) :
    (host.transferWorkspaceViewRegistration source target view).windows.contains found =
      host.windows.contains found := by
  rw [windows_transfer hne hsource htarget view hitem]
  have hbetween : ∀ changed : WindowRecord,
      (host.windows.insert source changed)[target]? = some other := fun changed => by
    rw [OrderedMap.getElem?_insert, if_neg hne, htarget]
  rw [contains_insert_record (hbetween _), contains_insert_record hsource]

theorem itemOf_transfer (found : WindowId) (id : ViewId) :
    (host.transferWorkspaceViewRegistration source target view).itemOf found id =
      if view.id = id ∧ found = target then some item
      else if view.id = id ∧ found = source then none
      else host.itemOf found id := by
  simp only [itemOf, windows_transfer hne hsource htarget view hitem, OrderedMap.getElem?_insert]
  by_cases hfound : target = found
  · subst hfound
    have hother : ¬target = source := Ne.symm hne
    simp only [if_true, bind_some, OrderedMap.getElem?_insert, htarget, hother, and_true,
      and_false, if_false]
  · simp only [if_neg hfound, Ne.symm hfound, and_false, if_false]
    by_cases hgone : source = found
    · subst hgone
      simp only [if_true, bind_some, OrderedMap.getElem?_erase, hsource, and_true]
    · simp only [if_neg hgone, Ne.symm hgone, and_false, if_false]

end transfer

section prune

variable (host : ApplicationHost)

theorem mem_viewsOf (takes : WindowId → Bool) (view : ViewId) :
    view ∈ host.viewsOf takes ↔ ∃ window item, takes window ∧ host.itemOf window view = some item := by
  unfold viewsOf
  rw [mem_flatMap]
  constructor
  · rintro ⟨⟨window, record⟩, hmem, hview⟩
    have hrecord := (OrderedMap.mem_toList_iff ..).mp hmem
    split at hview
    · rename_i htakes
      have hcontains := ExtTreeMap.mem_keys.mp hview
      obtain ⟨item, hitem⟩ := isSome_iff_exists.mp
        (ExtTreeMap.isSome_getElem?_iff_mem.mpr hcontains)
      exact ⟨window, item, htakes, by rw [itemOf, hrecord]; exact hitem⟩
    · cases hview
  · rintro ⟨window, item, htakes, hitem⟩
    obtain ⟨record, hrecord, hview⟩ := bind_eq_some_iff.mp hitem
    refine ⟨(window, record), (OrderedMap.mem_toList_iff ..).mpr hrecord, ?_⟩
    rw [if_pos htakes]
    exact ExtTreeMap.mem_keys.mpr (ExtTreeMap.isSome_getElem?_iff_mem.mp (by rw [hview]; rfl))

theorem contains_foldl_erase (views : List ViewId) (registry : ExtTreeMap ViewId ViewParticipant)
    (view : ViewId) : (views.foldl (fun registry view => registry.erase view) registry).contains view =
      (!views.contains view && registry.contains view) := by
  induction views generalizing registry with
  | nil => rfl
  | cons first views ih =>
    rw [foldl_cons, ih, OrderedMap.contains_eq_isSome, OrderedMap.getElem?_erase,
      OrderedMap.contains_eq_isSome]
    by_cases hfirst : first = view
    · simp [hfirst]
    · simp [hfirst, Ne.symm hfirst]

variable (opened : List WindowId)

theorem itemOf_pruneClosedWindows (window : WindowId) (view : ViewId) :
    (host.pruneClosedWindows opened).itemOf window view =
      if opened.contains window then host.itemOf window view else none := by
  show ((host.windows.filter fun window _ => opened.contains window)[window]?).bind _ = _
  rw [OrderedMap.getElem?_filter]
  split <;> rfl

theorem contains_pruneClosedWindows (window : WindowId) :
    (host.pruneClosedWindows opened).windows.contains window =
      (opened.contains window && host.windows.contains window) := by
  show (host.windows.filter fun window _ => opened.contains window).contains window = _
  rw [OrderedMap.contains_eq_isSome, OrderedMap.getElem?_filter, OrderedMap.contains_eq_isSome]
  cases opened.contains window <;> simp

end prune

namespace Truthful

variable {host : ApplicationHost} {windows : List WindowId} {rest : Entries}
  {window : WindowId} {slot : WorkspaceViewSlot}

section

variable (h : Truthful host windows ((window, slot) :: rest))

include h

theorem record :
    ∃ record, host.windows[window]? = some record ∧ record.views[slot.view.id]? = some slot.item := by
  have hitem := (h.items window slot.view.id slot.item).mpr ⟨slot, mem_cons_self, rfl, rfl⟩
  exact bind_eq_some_iff.mp hitem

theorem remove (hnew : slot.view.id ∉ rest.viewIds) (nextActive : Option ViewId) :
    Truthful (host.removeWorkspaceView window slot.view.id nextActive) windows rest := by
  obtain ⟨record, hrecord, -⟩ := h.record
  have hnot : ∀ {P : WorkspaceViewSlot → Prop} {other view}, slot.view.id = view →
      ¬rest.Held P other view := fun hview hheld => hnew (hview ▸ hheld.mem_viewIds)
  exact {
    windows := fun other => by rw [contains_removeWorkspaceView hrecord, h.windows]
    items := fun other view item => by
      rw [itemOf_removeWorkspaceView hrecord]
      by_cases hview : slot.view.id = view
      · simp only [hnot hview, hview, and_true, iff_false]
        split
        · simp
        · rename_i hother
          rw [h.items, Entries.held_cons hnew, if_pos hview]
          exact fun hheld => hother hheld.1
      · simp [hview, h.items, Entries.held_cons hnew]
    paths := fun path other view => by
      rw [paths_removeWorkspaceView hrecord]
      exact Entries.place_filter (h.paths path) hnew other view
    settings := fun other view => by
      rw [settingsView_removeWorkspaceView hrecord]
      exact Entries.place_filter h.settings hnew other view
    registry := fun view => by
      rw [contains_registry_removeWorkspaceView hrecord, Bool.and_eq_true, h.registry]
      by_cases hview : slot.view.id = view
      · simp [← hview, hnew]
      · simp [hview, Ne.symm hview]
    viewMru := by
      have hperm := h.viewMru.filter (· ≠ slot.view.id)
      rw [Entries.viewIds_cons, filter_cons_of_neg (by simp), filter_of_not_mem hnew] at hperm
      rwa [viewMru_removeWorkspaceView hrecord]
    honest := (forall_mem_cons.mp h.honest).2 }

end

theorem transfer {source target : WindowId} (hne : source ≠ target)
    (h : Truthful host windows ((source, slot) :: rest)) (htarget : target ∈ windows)
    (hnew : slot.view.id ∉ rest.viewIds) :
    Truthful (host.transferWorkspaceViewRegistration source target slot.view) windows
      ((target, slot) :: rest) := by
  obtain ⟨record, hrecord, hitem⟩ := h.record
  obtain ⟨other, hother⟩ : ∃ other, host.windows[target]? = some other := by
    have hcontains := (h.windows target).mpr htarget
    rw [OrderedMap.contains_eq_isSome] at hcontains
    exact isSome_iff_exists.mp hcontains
  exact {
    windows := fun found => by
      rw [contains_transfer hne hrecord hother slot.view hitem, h.windows]
    items := fun found view item => by
      rw [itemOf_transfer hne hrecord hother slot.view hitem, Entries.held_cons hnew]
      by_cases hview : slot.view.id = view
      · by_cases hfound : found = target
        · simp [hview, hfound]
        · by_cases hgone : found = source
          · simp [hview, hgone, hne]
          · simp [hview, hfound, hgone, h.items, Entries.held_cons hnew]
      · simp [hview, h.items, Entries.held_cons hnew]
    paths := fun path found view => by
      rw [paths_transfer hne]
      exact Entries.place_map (h.paths path) hnew target found view
    settings := fun found view => by
      rw [settingsView_transfer hne]
      exact Entries.place_map h.settings hnew target found view
    registry := fun view => by rw [resourceRegistry_transfer hne, h.registry]; rfl
    viewMru := by
      rw [viewMru_transfer hne]
      exact h.viewMru
    honest := by
      obtain ⟨hslot, hrest⟩ := forall_mem_cons.mp h.honest
      exact forall_mem_cons.mpr ⟨hslot, hrest⟩ }

theorem removeAll {slots : List WorkspaceViewSlot}
    (h : Truthful host windows (slots.map (window, ·) ++ rest))
    (hnodup : (Entries.viewIds (slots.map (window, ·) ++ rest)).Nodup)
    (nextActive : Option ViewId) :
    Truthful (slots.foldl (fun host slot =>
      host.removeWorkspaceView window slot.view.id nextActive) host) windows rest := by
  induction slots generalizing host with
  | nil => exact h
  | cons slot slots ih =>
    obtain ⟨hnew, hnodup⟩ := nodup_cons.mp hnodup
    exact ih (h.remove hnew nextActive) hnodup

theorem transferAll {source target : WindowId} (hne : source ≠ target)
    {slots : List WorkspaceViewSlot} (h : Truthful host windows (slots.map (source, ·) ++ rest))
    (htarget : target ∈ windows)
    (hnodup : (Entries.viewIds (slots.map (source, ·) ++ rest)).Nodup) :
    Truthful (slots.foldl (fun host slot =>
      host.transferWorkspaceViewRegistration source target slot.view) host) windows
        (slots.map (target, ·) ++ rest) := by
  induction slots generalizing host rest with
  | nil => exact h
  | cons slot slots ih =>
    obtain ⟨hnew, -⟩ := nodup_cons.mp hnodup
    have hmoved := h.transfer hne htarget hnew
    have hfront : ((target, slot) :: (slots.map (source, ·) ++ rest)).Perm
        (slots.map (source, ·) ++ (target, slot) :: rest) := perm_middle.symm
    refine (ih (hmoved.perm hfront) ?_).perm perm_middle
    have hids : (Entries.viewIds (slots.map (source, ·) ++ (target, slot) :: rest)).Perm
        (slot.view.id :: Entries.viewIds (slots.map (source, ·) ++ rest)) := hfront.symm.map _
    exact hids.nodup_iff.mpr hnodup

/-- The active view of a window, which was empty, gets a document. -/
theorem recordOpened {opened : WorkspaceViewSlot} {record : WindowRecord}
    {item : WorkspaceItemDescriptor} {path : PathBuf}
    (h : Truthful host windows ((window, slot) :: rest)) (hnew : slot.view.id ∉ rest.viewIds)
    (hrecord : host.windows[window]? = some record)
    (hactive : record.activeView = some slot.view.id) (hempty : slot.item = none)
    (hcontent : slot.content ≠ .settings) (hpath : host.paths.lookup path = none)
    (hsame : opened.view.id = slot.view.id) (hitem : opened.item = some item)
    (hshows : opened.Shows path) :
    Truthful (host.recordOpened window item path slot.view.id) windows
      ((window, opened) :: rest) := by
  have hnewOpened : opened.view.id ∉ rest.viewIds := hsame ▸ hnew
  have hwindows : (host.recordOpened window item path slot.view.id).windows =
      host.windows.insert window ⟨record.activeView, record.views.insert slot.view.id (some item)⟩ := by
    rw [ApplicationHost.recordOpened, hrecord]
    simp only [hactive]
  have hsettings : (host.recordOpened window item path slot.view.id).settingsView =
      host.settingsView := by
    rw [ApplicationHost.recordOpened, hrecord]
    simp only [hactive]
  have hpaths : (host.recordOpened window item path slot.view.id).paths =
      host.paths.insert path (window, slot.view.id) := by
    rw [ApplicationHost.recordOpened, hrecord]
    simp only [hactive]
  have hnot : ∀ path, ¬slot.Shows path := by
    rintro path ⟨-, id, hsome⟩
    rw [hempty] at hsome
    cases hsome
  exact {
    windows := fun other => by
      rw [hwindows, contains_insert_record hrecord, h.windows]
    items := fun other view found => by
      rw [itemOf, hwindows, show (host.windows.insert window ⟨record.activeView,
        record.views.insert slot.view.id (some item)⟩)[other]?.bind (fun record =>
          record.views[view]?) = _ from itemOf_insert_view hrecord _ slot.view.id (some item) other
            view, Entries.held_cons hnewOpened, hsame, hitem]
      by_cases hview : slot.view.id = view
      · by_cases hother : other = window
        · simp [hview, hother]
        · simp [hview, hother, h.items, Entries.held_cons hnew]
      · simp [hview, h.items, Entries.held_cons hnew]
    paths := fun other found view => by
      rw [hpaths, Table.lookup_insert, Entries.held_cons hnewOpened, hsame]
      by_cases hother : other = path
      · have hnone := h.not_shows hpath found view
        rw [Entries.held_cons hnew] at hnone
        by_cases hview : slot.view.id = view
        · simp [hother, hview, hshows, eq_comm]
        · simp_all
      · have hnotOpened : ¬opened.Shows other := fun hopened => hother (hopened.unique hshows)
        rw [if_neg hother, h.paths, Entries.held_cons hnew]
        simp [hnot, hnotOpened]
    settings := fun other view => by
      have hnotSettings : opened.content ≠ .settings := by
        rw [hshows.1]
        simp
      rw [hsettings, h.settings, Entries.held_cons hnew, Entries.held_cons hnewOpened, hsame]
      simp [hcontent, hnotSettings]
    registry := fun view => by
      rw [ApplicationHost.recordOpened, hrecord]
      simp only [hactive, h.registry, Entries.viewIds_cons, hsame]
    viewMru := by
      rw [ApplicationHost.recordOpened, hrecord]
      simp only [hactive, Entries.viewIds_cons, hsame]
      exact h.viewMru
    honest := forall_mem_cons.mpr ⟨.shows hshows, (forall_mem_cons.mp h.honest).2⟩ }

theorem contains_of_held {entries : Entries} (h : Truthful host windows entries)
    {P : WorkspaceViewSlot → Prop} {view : ViewId} (hheld : entries.Held P window view) :
    host.windows.contains window ∧ (host.windows[window]?.any fun record =>
      record.views.contains view) := by
  obtain ⟨slot, hmem, hview, -⟩ := hheld
  have hitem := (h.items window view slot.item).mpr ⟨slot, hmem, hview, rfl⟩
  obtain ⟨record, hrecord, hfound⟩ := bind_eq_some_iff.mp hitem
  refine ⟨by rw [OrderedMap.contains_eq_isSome, hrecord]; rfl, ?_⟩
  rw [hrecord, any_some, OrderedMap.contains_eq_isSome, hfound]
  rfl

theorem lookup_of_filter {entries : Entries} (h : Truthful host windows entries) {path : PathBuf}
    (hfilter : (host.paths.lookup path).filter (fun place => host.windows.contains place.1) = none) :
    host.paths.lookup path = none := by
  cases hlookup : host.paths.lookup path with
  | none => rfl
  | some place =>
    have hcontains := (h.contains_of_held ((h.paths path place.1 place.2).mp hlookup)).1
    rw [hlookup, filter_some, if_pos hcontains] at hfilter
    cases hfilter

theorem settingsView_of_filter {entries : Entries} (h : Truthful host windows entries)
    (hfilter : host.settingsView.filter (fun place => host.windows.contains place.1) = none) :
    host.settingsView = none := by
  cases hplace : host.settingsView with
  | none => rfl
  | some place =>
    have hcontains := (h.contains_of_held ((h.settings place.1 place.2).mp hplace)).1
    rw [hplace, filter_some, if_pos hcontains] at hfilter
    cases hfilter

/-- What is gone is what was in windows that are not open. -/
theorem prune {gone : Entries} {opened : List WindowId} (h : Truthful host windows (gone ++ rest))
    (hnodup : (Entries.viewIds (gone ++ rest)).Nodup) (hgone : ∀ entry ∈ gone, entry.1 ∉ opened)
    (hrest : ∀ entry ∈ rest, entry.1 ∈ opened) :
    Truthful (host.pruneClosedWindows opened) (windows.filter (opened.contains ·)) rest := by
  have hheld : ∀ {P : WorkspaceViewSlot → Prop} {window view},
      (Entries.Held (gone ++ rest) P window view ∧ window ∈ opened) ↔
        rest.Held P window view := by
    intro P window view
    rw [Entries.held_append]
    constructor
    · rintro ⟨⟨slot, hmem, -, -⟩ | hheld, hopened⟩
      · exact absurd hopened (hgone _ hmem)
      · exact hheld
    · intro hheld
      obtain ⟨slot, hmem, -, -⟩ := id hheld
      exact ⟨.inr hheld, hrest _ hmem⟩
  have hremoved : ∀ view, view ∈ host.viewsOf (fun window => !opened.contains window) ↔
      view ∈ gone.viewIds := by
    intro view
    rw [mem_viewsOf]
    constructor
    · rintro ⟨window, item, htakes, hitem⟩
      obtain hgoneHeld | hrestHeld := Entries.held_append.mp ((h.items window view item).mp hitem)
      · exact hgoneHeld.mem_viewIds
      · obtain ⟨slot, hmem, -, -⟩ := hrestHeld
        have hopened := hrest _ hmem
        simp [hopened] at htakes
    · intro hview
      obtain ⟨⟨window, slot⟩, hmem, rfl⟩ := mem_map.mp hview
      have hclosed := hgone _ hmem
      refine ⟨window, slot.item, by simpa using hclosed, ?_⟩
      exact (h.items window _ slot.item).mpr ⟨slot, mem_append_left _ hmem, rfl, rfl⟩
  exact {
    windows := fun window => by
      rw [contains_pruneClosedWindows, Bool.and_eq_true, h.windows, mem_filter, and_comm]
    items := fun window view item => by
      rw [itemOf_pruneClosedWindows, ← hheld, ← h.items]
      by_cases hopened : window ∈ opened <;> simp [hopened]
    paths := fun path window view => by
      have hlookup : (host.pruneClosedWindows opened).paths.lookup path =
          (host.paths.lookup path).filter fun place =>
            (host.pruneClosedWindows opened).windows.contains place.1 :=
        Table.lookup_retainValues _ _ _
      rw [hlookup, filter_eq_some_iff, h.paths, contains_pruneClosedWindows,
        Bool.and_eq_true, ← hheld]
      constructor
      · rintro ⟨hheld, hopened, -⟩
        exact ⟨hheld, contains_iff_mem.mp hopened⟩
      · rintro ⟨hheld, hopened⟩
        exact ⟨hheld, contains_iff_mem.mpr hopened, (h.contains_of_held hheld).1⟩
    settings := fun window view => by
      have hsettings : (host.pruneClosedWindows opened).settingsView =
          host.settingsView.filter fun place =>
            (host.windows.filter fun window _ => opened.contains window)[place.1]?.any fun record =>
              record.views.contains place.2 := rfl
      rw [hsettings, filter_eq_some_iff, h.settings, OrderedMap.getElem?_filter, ← hheld]
      constructor
      · rintro ⟨hheld, hfound⟩
        refine ⟨hheld, ?_⟩
        by_contra hclosed
        simp [hclosed] at hfound
      · rintro ⟨hheld, hopened⟩
        rw [if_pos (contains_iff_mem.mpr hopened)]
        exact ⟨hheld, (h.contains_of_held hheld).2⟩
    registry := fun view => by
      have hcontains : (host.pruneClosedWindows opened).resourceRegistry.contains view =
          (!(host.viewsOf fun window => !opened.contains window).contains view &&
            host.resourceRegistry.contains view) :=
        (contains_refreshActivityLevels _ view).trans (contains_foldl_erase _ _ view)
      rw [hcontains, Bool.and_eq_true, h.registry, Bool.not_eq_true', ← Bool.not_eq_true,
        contains_iff_mem, hremoved, Entries.viewIds_append, mem_append]
      have hapart := disjoint_of_nodup_append (Entries.viewIds_append ▸ hnodup)
      constructor
      · rintro ⟨hnot, hmem⟩
        exact hmem.resolve_left hnot
      · intro hmem
        exact ⟨fun hother => hapart hother hmem, .inr hmem⟩
    viewMru := by
      have hmru : (host.pruneClosedWindows opened).viewMru = host.viewMru.filter fun view =>
          !(host.viewsOf fun window => !opened.contains window).contains view := rfl
      have hapart := disjoint_of_nodup_append (Entries.viewIds_append ▸ hnodup)
      have hperm := h.viewMru.filter fun view =>
        !(host.viewsOf fun window => !opened.contains window).contains view
      have hfirst : (gone.viewIds.filter fun view =>
          !(host.viewsOf fun window => !opened.contains window).contains view) = [] := by
        rw [filter_eq_nil_iff]
        intro view hview
        rw [contains_iff_mem.mpr ((hremoved view).mpr hview)]
        decide
      have hlast : (Entries.viewIds rest).filter (fun view =>
          !(host.viewsOf fun window => !opened.contains window).contains view) =
            Entries.viewIds rest := by
        rw [filter_eq_self]
        intro view hview
        have hnot := (hremoved view).not.mpr fun hother => hapart hother hview
        rw [Bool.not_eq_true', ← Bool.not_eq_true, contains_iff_mem]
        exact hnot
      rwa [Entries.viewIds_append, filter_append, hfirst, hlast, nil_append] at hperm
    honest := (forall_mem_append.mp h.honest).2 }

end Truthful

end KeyReader.Workspace
