import KeyReader.Workspace.Turnover

/-! What the tables of the host say about the views of the windows, and how they keep saying it. -/

namespace KeyReader.Workspace

open List

open ApplicationHost (Retains)

variable {path : PathBuf} {slot : WorkspaceViewSlot}

namespace WorkspaceViewSlot

/-- The slot is a document view of a path that it was told to open. -/
def Shows (slot : WorkspaceViewSlot) (path : PathBuf) : Prop :=
  slot.content = .pdf ⟨some path⟩ ∧ ∃ id, slot.item = some ⟨id, .pdf, .file path⟩

/-- Settings and an empty document view have no item. -/
inductive Honest : WorkspaceViewSlot → Prop
  | settings (view : WorkspaceViewDescriptor) : Honest ⟨none, view, .settings⟩
  | empty (view : WorkspaceViewDescriptor) : Honest ⟨none, view, .pdf ⟨none⟩⟩
  | shows {slot : WorkspaceViewSlot} {path : PathBuf} (h : slot.Shows path) : Honest slot

theorem Shows.unique {other : PathBuf} (h : slot.Shows path) (h' : slot.Shows other) :
    path = other := by
  have heq := h.1.symm.trans h'.1
  simpa using heq

theorem Honest.shows_of_content (h : slot.Honest) (hcontent : slot.content = .pdf ⟨some path⟩) :
    slot.Shows path := by
  cases h with
  | settings | empty => cases hcontent
  | shows h =>
    obtain rfl : path = _ := by simpa [hcontent] using h.1
    exact h

theorem Honest.rebuild (h : slot.Honest) : rebuildSlot slot = slot := by
  cases h with
  | settings | empty => rfl
  | shows h =>
    obtain ⟨item, view, content⟩ := slot
    obtain ⟨rfl, id, rfl⟩ := h
    rfl

end WorkspaceViewSlot

abbrev Entries := List (WindowId × WorkspaceViewSlot)

def Entries.viewIds (entries : Entries) : List ViewId := entries.map (·.2.view.id)

/-- A view of a window has a slot that satisfies `P`. -/
def Entries.Held (entries : Entries) (P : WorkspaceViewSlot → Prop) (window : WindowId)
    (view : ViewId) : Prop :=
  ∃ slot, (window, slot) ∈ entries ∧ slot.view.id = view ∧ P slot

namespace Entries

variable {entries rest : Entries} {P : WorkspaceViewSlot → Prop} {window other : WindowId}
  {view : ViewId} {slot : WorkspaceViewSlot}

theorem Held.mem_viewIds (h : entries.Held P window view) : view ∈ entries.viewIds := by
  obtain ⟨slot, hmem, rfl, -⟩ := h
  exact mem_map.mpr ⟨(window, slot), hmem, rfl⟩

theorem perm_viewIds (h : entries.Perm rest) : entries.viewIds.Perm rest.viewIds := h.map _

theorem held_perm (h : entries.Perm rest) : entries.Held P window view ↔ rest.Held P window view := by
  simp only [Held, h.mem_iff]

theorem held_cons (hnew : slot.view.id ∉ viewIds rest) :
    Held ((window, slot) :: rest) P other view ↔
      if slot.view.id = view then other = window ∧ P slot else Held rest P other view := by
  constructor
  · rintro ⟨found, hmem, rfl, hfound⟩
    rcases mem_cons.mp hmem with heq | hmem
    · cases heq
      rw [if_pos rfl]
      exact ⟨rfl, hfound⟩
    · have hother : found.view.id ∈ viewIds rest := mem_map.mpr ⟨_, hmem, rfl⟩
      have hne : slot.view.id ≠ found.view.id := fun heq => hnew (heq ▸ hother)
      rw [if_neg hne]
      exact ⟨found, hmem, rfl, hfound⟩
  · split
    · rename_i hview
      rintro ⟨rfl, hslot⟩
      exact ⟨slot, mem_cons_self, hview, hslot⟩
    · rintro ⟨found, hmem, hview, hfound⟩
      exact ⟨found, mem_cons_of_mem _ hmem, hview, hfound⟩

end Entries

/-- The tables of the host tell the truth about the windows and their slots. -/
structure Truthful (host : ApplicationHost) (windows : List WindowId) (entries : Entries) :
    Prop where
  windows : ∀ window, host.windows.contains window = true ↔ window ∈ windows
  items : ∀ window view item, host.itemOf window view = some item ↔
    entries.Held (fun slot => slot.item = item) window view
  paths : ∀ path window view, host.paths.lookup path = some (window, view) ↔
    entries.Held (fun slot => slot.Shows path) window view
  settings : ∀ window view, host.settingsView = some (window, view) ↔
    entries.Held (fun slot => slot.content = .settings) window view
  registry : ∀ view, host.resourceRegistry.contains view = true ↔ view ∈ entries.viewIds
  viewMru : host.viewMru.Perm entries.viewIds
  honest : ∀ entry ∈ entries, entry.2.Honest

namespace Truthful

variable {host next : ApplicationHost} {windows : List WindowId} {entries rest : Entries}
  {window : WindowId} {slot : WorkspaceViewSlot}

section

variable (h : Truthful host windows entries)

include h

theorem perm (hperm : entries.Perm rest) : Truthful host windows rest where
  windows := h.windows
  items window view item := (h.items window view item).trans (Entries.held_perm hperm)
  paths path window view := (h.paths path window view).trans (Entries.held_perm hperm)
  settings window view := (h.settings window view).trans (Entries.held_perm hperm)
  registry view := (h.registry view).trans (hperm.map _).mem_iff
  viewMru := h.viewMru.trans (hperm.map _)
  honest entry hentry := h.honest entry (hperm.mem_iff.mpr hentry)

theorem windows_congr {windows' : List WindowId}
    (hsame : ∀ window, window ∈ windows ↔ window ∈ windows') : Truthful host windows' entries :=
  { h with windows := fun window => (h.windows window).trans (hsame window) }

theorem retains {known : List ViewId} (hretains : Retains known host next)
    (hknown : ∀ view ∈ known, view ∈ entries.viewIds)
    (hnodup : entries.viewIds.Nodup) : Truthful next windows entries where
  windows window := by rw [hretains.windows, h.windows]
  items window view item := by rw [hretains.items, h.items]
  paths path window view := by rw [hretains.paths, h.paths]
  settings window view := by rw [hretains.settingsView, h.settings]
  registry view := by rw [hretains.registry, h.registry]
  viewMru := hretains.viewMru _ hknown hnodup h.viewMru
  honest := h.honest

theorem not_shows (hpath : host.paths.lookup path = none) (other : WindowId) (view : ViewId) :
    ¬entries.Held (fun slot => slot.Shows path) other view := by
  intro hheld
  rw [(h.paths path other view).mpr hheld] at hpath
  cases hpath

end

end Truthful

/-- What `next` says of a new view in addition to what `host` says. -/
structure Registers (window : WindowId) (slot : WorkspaceViewSlot) (host next : ApplicationHost) :
    Prop where
  items : ∀ other view, next.itemOf other view =
    if other = window ∧ slot.view.id = view then some slot.item else host.itemOf other view
  shown : ∀ path, slot.Shows path → next.paths.lookup path = some (window, slot.view.id)
  paths : ∀ path, ¬slot.Shows path → next.paths.lookup path = host.paths.lookup path
  settings : slot.content = .settings → next.settingsView = some (window, slot.view.id)
  settingsView : slot.content ≠ .settings → next.settingsView = host.settingsView
  registry : ∀ view, next.resourceRegistry.contains view =
    (decide (slot.view.id = view) || host.resourceRegistry.contains view)
  viewMru : ∀ views : List ViewId, slot.view.id ∉ views → host.viewMru.Perm views →
    next.viewMru.Perm (slot.view.id :: views)

/-- Nothing leads to the view yet, nor to what it is going to show. -/
theorem Truthful.registers {host next : ApplicationHost} {windows windows' : List WindowId}
    {entries : Entries} {window : WindowId} (h : Truthful host windows entries)
    (hregisters : Registers window slot host next)
    (hwindows : ∀ other, next.windows.contains other = true ↔ other ∈ windows')
    (hnew : slot.view.id ∉ entries.viewIds) (hhonest : slot.Honest)
    (hshown : ∀ path, slot.Shows path → host.paths.lookup path = none)
    (hsettings : slot.content = .settings → host.settingsView = none) :
    Truthful next windows' ((window, slot) :: entries) where
  windows := hwindows
  items other view item := by
    rw [hregisters.items, Entries.held_cons hnew]
    by_cases hview : slot.view.id = view
    · have hnone : ∀ item, host.itemOf other view ≠ some item := by
        intro item hitem
        exact hnew (hview ▸ ((h.items other view item).mp hitem).mem_viewIds)
      by_cases hother : other = window
      · simp [hview, hother]
      · simp [hview, hother, hnone]
    · simp [hview, h.items]
  paths path other view := by
    rw [Entries.held_cons hnew]
    by_cases hshows : slot.Shows path
    · rw [hregisters.shown path hshows]
      have hnot := h.not_shows (hshown path hshows) other view
      by_cases hview : slot.view.id = view
      · simp [hview, hshows, eq_comm]
      · simp [hview, hnot]
    · rw [hregisters.paths path hshows, h.paths]
      by_cases hview : slot.view.id = view
      · have hnot : ¬entries.Held (fun slot => slot.Shows path) other view :=
          fun hheld => hnew (hview ▸ hheld.mem_viewIds)
        simp [hview, hshows, hnot]
      · simp [hview]
  settings other view := by
    rw [Entries.held_cons hnew]
    by_cases hcontent : slot.content = .settings
    · have hnot : ¬entries.Held (fun slot => slot.content = .settings) other view := by
        rw [← h.settings, hsettings hcontent]
        simp
      rw [hregisters.settings hcontent]
      by_cases hview : slot.view.id = view
      · simp [hview, hcontent, eq_comm]
      · simp [hview, hnot]
    · rw [hregisters.settingsView hcontent, h.settings]
      by_cases hview : slot.view.id = view
      · have hnot : ¬entries.Held (fun slot => slot.content = .settings) other view :=
          fun hheld => hnew (hview ▸ hheld.mem_viewIds)
        simp [hview, hcontent, hnot]
      · simp [hview]
  registry view := by
    rw [hregisters.registry, Bool.or_eq_true, decide_eq_true_eq, h.registry]
    simp [Entries.viewIds, eq_comm]
  viewMru := hregisters.viewMru _ hnew h.viewMru
  honest := forall_mem_cons.mpr ⟨hhonest, h.honest⟩

namespace ApplicationHost

variable {host between : ApplicationHost} {window : WindowId} {record : WindowRecord}

theorem itemOf_insert_view (h : host.windows[window]? = some record) (active : Option ViewId)
    (view : ViewId) (item : Option WorkspaceItemDescriptor) (other : WindowId) (found : ViewId) :
    itemOf { host with
        windows := host.windows.insert window ⟨active, record.views.insert view item⟩ } other found =
      if other = window ∧ view = found then some item else host.itemOf other found := by
  simp only [itemOf, OrderedMap.getElem?_insert]
  by_cases hother : window = other
  · subst hother
    rw [if_pos rfl, h, Option.bind_some, Option.bind_some, OrderedMap.getElem?_insert]
    by_cases hview : view = found <;> simp [hview]
  · simp [hother, Ne.symm hother]

theorem itemOf_erase_view (h : host.windows[window]? = some record) (active : Option ViewId)
    (view : ViewId) (other : WindowId) (found : ViewId) :
    itemOf { host with windows := host.windows.insert window ⟨active, record.views.erase view⟩ }
        other found =
      if other = window ∧ view = found then none else host.itemOf other found := by
  simp only [itemOf, OrderedMap.getElem?_insert]
  by_cases hother : window = other
  · subst hother
    rw [if_pos rfl, h, Option.bind_some, Option.bind_some, OrderedMap.getElem?_erase]
    by_cases hview : view = found <;> simp [hview]
  · simp [hother, Ne.symm hother]

theorem contains_insert_record {records : Std.ExtTreeMap WindowId WindowRecord}
    (h : records[window]? = some record) (changed : WindowRecord) (other : WindowId) :
    (records.insert window changed).contains other = records.contains other := by
  simp only [OrderedMap.contains_eq_isSome, OrderedMap.getElem?_insert]
  split
  · rename_i heq
    rw [← heq, h]
    rfl
  · rfl

variable (files : FileSystem) (slot : WorkspaceViewSlot) (item : Option WorkspaceItemDescriptor)

section

variable (view : ViewId)

theorem windows_registerViewPath :
    (host.registerViewPath files item window view).windows = host.windows := by
  unfold registerViewPath
  split <;> rfl

theorem settingsView_registerViewPath :
    (host.registerViewPath files item window view).settingsView = host.settingsView := by
  unfold registerViewPath
  split <;> rfl

theorem resourceRegistry_registerViewPath :
    (host.registerViewPath files item window view).resourceRegistry =
      host.resourceRegistry := by
  unfold registerViewPath
  split <;> rfl

theorem viewMru_registerViewPath :
    (host.registerViewPath files item window view).viewMru = host.viewMru := by
  unfold registerViewPath
  split <;> rfl

end

theorem paths_registerViewPath (hhonest : slot.Honest)
    (hnormal : ∀ path, slot.Shows path → files.normalizePath path = path) (path : PathBuf) :
    (slot.Shows path → (host.registerViewPath files slot.item window slot.view.id).paths.lookup
      path = some (window, slot.view.id)) ∧
    (¬slot.Shows path → (host.registerViewPath files slot.item window slot.view.id).paths.lookup
      path = host.paths.lookup path) := by
  have hother : slot.item = none → ¬slot.Shows path := by
    rintro hnone ⟨-, id, hitem⟩
    rw [hnone] at hitem
    cases hitem
  cases hhonest with
  | settings | empty => exact ⟨fun h => absurd h (hother rfl), fun _ => rfl⟩
  | shows h =>
    rename_i shown
    obtain ⟨id, hitem⟩ := h.2
    simp only [registerViewPath, hitem, Table.lookup_insert, hnormal shown h]
    constructor
    · intro hshows
      rw [if_pos (hshows.unique h)]
    · intro hnot
      rw [if_neg (fun heq : path = shown => hnot (heq ▸ h))]

theorem filter_append_self (views : List ViewId) (view : ViewId) :
    (views.filter (· ≠ view) ++ [view]).filter (· ≠ view) = views.filter (· ≠ view) := by
  simp [filter_append, filter_filter]

theorem filter_of_not_mem {views : List ViewId} {view : ViewId} (h : view ∉ views) :
    views.filter (· ≠ view) = views := by
  rw [filter_eq_self]
  intro other hother
  exact decide_eq_true fun heq => h (heq ▸ hother)

/-- The end of the registration of a view, after its window has shown it. -/
theorem registers_of_record {next : ApplicationHost} (hhonest : slot.Honest)
    (hnormal : ∀ path, slot.Shows path → files.normalizePath path = path)
    (hitems : ∀ other view, between.itemOf other view =
      if other = window ∧ slot.view.id = view then some slot.item else host.itemOf other view)
    (hpaths : between.paths = host.paths)
    (hshown : slot.content = .settings → between.settingsView = some (window, slot.view.id))
    (hsettings : slot.content ≠ .settings → between.settingsView = host.settingsView)
    (hregistry : ∀ view, between.resourceRegistry.contains view =
      host.resourceRegistry.contains view)
    (hviewMru : between.viewMru.filter (· ≠ slot.view.id) = host.viewMru.filter (· ≠ slot.view.id))
    (hnext : next = ((between.registerViewPath files slot.item window slot.view.id).registerParticipant
      slot.view).setActiveViews slot.view.id [slot.view.id]) : Registers window slot host next := by
  let registered := between.registerViewPath files slot.item window slot.view.id
  have hlookup : ∀ path,
      (slot.Shows path → registered.paths.lookup path = some (window, slot.view.id)) ∧
      (¬slot.Shows path → registered.paths.lookup path = between.paths.lookup path) :=
    paths_registerViewPath files slot hhonest hnormal
  have hwindows : registered.windows = between.windows := windows_registerViewPath files _ _
  have hmru : registered.viewMru = between.viewMru := viewMru_registerViewPath files _ _
  have hview : registered.settingsView = between.settingsView :=
    settingsView_registerViewPath files _ _
  subst hnext
  exact {
    items := fun other view => by
      rw [← hitems other view]
      show registered.itemOf other view = between.itemOf other view
      rw [itemOf, hwindows, itemOf]
    shown := fun path h => (hlookup path).1 h
    paths := fun path h => ((hlookup path).2 h).trans (by rw [hpaths])
    settings := fun h => hview.trans (hshown h)
    settingsView := fun h => hview.trans (hsettings h)
    registry := fun view => by
      rw [setActiveViews, contains_refreshActivityLevels, registerParticipant,
        contains_refreshActivityLevels, OrderedMap.contains_eq_isSome, OrderedMap.getElem?_insert,
        resourceRegistry_registerViewPath, ← hregistry, OrderedMap.contains_eq_isSome]
      split <;> simp [*]
    viewMru := fun views hnew hperm => by
      have hlast : ((registered.registerParticipant slot.view).setActiveViews slot.view.id
          [slot.view.id]).viewMru = slot.view.id :: host.viewMru.filter (· ≠ slot.view.id) := by
        rw [← hviewMru, ← filter_append_self between.viewMru, ← hmru]
        rfl
      have hnot : slot.view.id ∉ host.viewMru := fun hmem => hnew (hperm.mem_iff.mp hmem)
      rw [hlast, filter_of_not_mem hnot]
      exact hperm.cons _ }

end ApplicationHost

end KeyReader.Workspace
