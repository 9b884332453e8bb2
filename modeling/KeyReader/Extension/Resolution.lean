import KeyReader.Extension.Changes

/-! The capabilities of the active extensions.  Whatever takes offers away resolves the capabilities
of all active extensions again; an activation or a resumption, which adds offers, does not. -/

namespace KeyReader.Extension

open Std OrderedMap List Option Bool

namespace ExtensionHost

variable {G : Type} {host : ExtensionHost G}

theorem mem_capabilityOffers {offer : ProvidedCapability} : offer ∈ host.capabilityOffers ↔
      host.hostCapabilities[offer.id]? = some offer.version ∨
      ∃ (provider : ExtensionId) (record : PackageRecord), host.runtimes[provider]?.isSome ∧
        host.registry[provider]? = some record ∧ record.state = .active ∧
        offer ∈ record.manifest.capabilities.provided := by
  unfold capabilityOffers
  rw [mem_append]
  refine or_congr ?_ ?_
  · simp only [List.mem_map, Prod.exists, mem_toList_iff]
    constructor
    · rintro ⟨id, version, h, rfl⟩
      exact h
    · intro h
      exact ⟨_, _, h, rfl⟩
  · simp only [List.mem_flatMap, List.mem_filter, ExtTreeMap.mem_keys, decide_eq_true_eq,
      state_eq_some]
    constructor
    · rintro ⟨provider, ⟨hruntime, record, hrecord, hactive⟩, hoffer⟩
      rw [hrecord] at hoffer
      refine ⟨provider, record, ?_, hrecord, hactive, hoffer⟩
      rwa [← contains_eq_isSome]
    · rintro ⟨provider, record, hruntime, hrecord, hactive, hoffer⟩
      refine ⟨provider, ⟨?_, record, hrecord, hactive⟩, ?_⟩
      · rwa [← contains_eq_isSome] at hruntime
      · rw [hrecord]
        exact hoffer

/-- Every active extension has a runtime. -/
def Running (host : ExtensionHost G) : Prop :=
  ∀ extension, host.state extension = some .active → host.runtimes[extension]?.isSome

variable {next : ExtensionHost G}

theorem Running.of_quiet (h : host.Running) (hquiet : Quiet host next) : next.Running := by
  intro extension hactive
  rw [hquiet.isSome_runtimes]
  exact h extension (hquiet.active hactive)

structure SameActive (host next : ExtensionHost G) : Prop where
  hostCapabilities : next.hostCapabilities = host.hostCapabilities
  registry : ∀ (extension : ExtensionId) (record : PackageRecord), record.state = .active →
    (next.registry[extension]? = some record ↔ host.registry[extension]? = some record)
  capabilities : ∀ extension : ExtensionId, host.state extension = some .active →
    next.runtimes[extension]?.map (·.capabilities) = host.runtimes[extension]?.map (·.capabilities)

variable {extension : ExtensionId}

namespace SameActive

theorem refl (host : ExtensionHost G) : SameActive host host :=
  ⟨rfl, fun _ _ _ => Iff.rfl, fun _ _ => rfl⟩

section

variable (h : SameActive host next)

include h

theorem state (extension : ExtensionId) :
    next.state extension = some .active ↔ host.state extension = some .active := by
  rw [state_eq_some, state_eq_some]
  exact exists_congr fun record => ⟨fun ⟨hrecord, hactive⟩ =>
    ⟨(h.registry extension record hactive).mp hrecord, hactive⟩, fun ⟨hrecord, hactive⟩ =>
    ⟨(h.registry extension record hactive).mpr hrecord, hactive⟩⟩

theorem isSome (hactive : host.state extension = some .active) :
    next.runtimes[extension]?.isSome = host.runtimes[extension]?.isSome := by
  have hcapabilities := congrArg Option.isSome (h.capabilities extension hactive)
  simpa using hcapabilities

theorem running (hrunning : host.Running) : next.Running := by
  intro extension hactive
  rw [h.state] at hactive
  rw [h.isSome hactive]
  exact hrunning extension hactive

theorem mem_capabilityOffers (offer : ProvidedCapability) :
    offer ∈ next.capabilityOffers ↔ offer ∈ host.capabilityOffers := by
  rw [ExtensionHost.mem_capabilityOffers, ExtensionHost.mem_capabilityOffers, h.hostCapabilities]
  refine or_congr Iff.rfl (exists_congr fun provider => exists_congr fun record => ?_)
  constructor
  · rintro ⟨hruntime, hrecord, hactive, hoffer⟩
    have hrecord' := (h.registry provider record hactive).mp hrecord
    rw [h.isSome (state_eq_some.mpr ⟨record, hrecord', hactive⟩)] at hruntime
    exact ⟨hruntime, hrecord', hactive, hoffer⟩
  · rintro ⟨hruntime, hrecord, hactive, hoffer⟩
    rw [← h.isSome (state_eq_some.mpr ⟨record, hrecord, hactive⟩)] at hruntime
    exact ⟨hruntime, (h.registry provider record hactive).mpr hrecord, hactive, hoffer⟩

end

theorem of_eq (hregistry : next.registry = host.registry)
    (hruntimes : next.runtimes = host.runtimes)
    (hoffers : next.hostCapabilities = host.hostCapabilities) : SameActive host next where
  hostCapabilities := hoffers
  registry _ _ _ := by rw [hregistry]
  capabilities _ _ := by rw [hruntimes]

theorem of_setRuntime {runtime next : ActiveRuntime G}
    (hruntime : host.runtimes[extension]? = some runtime)
    (hcapabilities : next.capabilities = runtime.capabilities) :
    SameActive host (host.setRuntime extension next) where
  __ := refl host
  capabilities other _ := by
    rw [runtimes_setRuntime]
    split
    · rename_i h
      rw [← h, hruntime, map_some, map_some, hcapabilities]
    · rfl

end SameActive

variable [Platform]

/-- Some offer meets the request. -/
def Offered (host : ExtensionHost G) (request : CapabilityRequest) : Prop :=
  ∃ offer ∈ host.capabilityOffers, offer.id = request.id ∧
    Platform.versionMatches request.version offer.version

theorem isSome_matchingOffer {request : CapabilityRequest} :
    (matchingOffer host.capabilityOffers request).isSome ↔ host.Offered request := by
  unfold matchingOffer Offered
  rw [find?_isSome]
  simp

theorem SameActive.offered (h : SameActive host next) (request : CapabilityRequest) :
    next.Offered request ↔ host.Offered request :=
  exists_congr fun offer => and_congr (h.mem_capabilityOffers offer) Iff.rfl

theorem resolveCapabilities_of_offered {manifest : ExtensionManifest}
    {capabilities : CapabilitySnapshot}
    (hresolved : host.resolveCapabilities manifest = .ok capabilities)
    (hrequired : ∀ request ∈ manifest.capabilities.required, host.Offered request →
      next.Offered request)
    (hoptional : ∀ request ∈ manifest.capabilities.optional,
      (next.Offered request ↔ host.Offered request)) :
    next.resolveCapabilities manifest = .ok capabilities := by
  unfold resolveCapabilities at hresolved ⊢
  dsimp only at hresolved ⊢
  split at hresolved
  · cases hresolved
  · rename_i hnone
    have hfilter : ∀ request ∈ manifest.capabilities.optional,
        (matchingOffer next.capabilityOffers request).isSome =
          (matchingOffer host.capabilityOffers request).isSome := by
      intro request hmem
      rw [Bool.eq_iff_iff, isSome_matchingOffer, isSome_matchingOffer]
      exact hoptional request hmem
    have hnone' : manifest.capabilities.required.find? (fun request =>
        !(matchingOffer next.capabilityOffers request).isSome) = none := by
      rw [find?_eq_none] at hnone ⊢
      intro request hmem
      have hoffered := hnone request hmem
      simp only [not_eq_true', not_eq_false, isSome_matchingOffer] at hoffered ⊢
      exact hrequired request hmem hoffered
    rw [hnone', ← hresolved]
    rw [filter_congr hfilter, filter_congr fun request hmem =>
      congrArg Bool.not (hfilter request hmem)]

theorem offered_of_resolveCapabilities {manifest : ExtensionManifest}
    {capabilities : CapabilitySnapshot}
    (hresolved : host.resolveCapabilities manifest = .ok capabilities) :
    ∀ request ∈ manifest.capabilities.required, host.Offered request := by
  unfold resolveCapabilities at hresolved
  dsimp only at hresolved
  split at hresolved
  · cases hresolved
  · rename_i hnone
    intro request hmem
    have hoffered := find?_eq_none.mp hnone request hmem
    simp only [not_eq_true', not_eq_false, isSome_matchingOffer] at hoffered
    exact hoffered

def Current (host : ExtensionHost G) : Prop :=
  ∀ (extension : ExtensionId) (record : PackageRecord) (runtime : ActiveRuntime G),
    host.registry[extension]? = some record → record.state = .active →
    host.runtimes[extension]? = some runtime →
      host.resolveCapabilities record.manifest = .ok runtime.capabilities

theorem Current.of_same (hcurrent : host.Current) (h : SameActive host next) : next.Current := by
  intro extension record runtime hrecord hactive hruntime
  have hrecord' := (h.registry extension record hactive).mp hrecord
  have hcapabilities := h.capabilities extension (state_eq_some.mpr ⟨record, hrecord', hactive⟩)
  rw [hruntime, map_some] at hcapabilities
  obtain ⟨runtime', hruntime', heq⟩ := map_eq_some_iff.mp hcapabilities.symm
  rw [← heq]
  exact resolveCapabilities_of_offered (hcurrent extension record runtime' hrecord' hactive hruntime')
    (fun request _ => (h.offered request).mpr) fun request _ => h.offered request

/-- Every active extension has a runtime, with the capabilities that its manifest resolves to. -/
structure Resolved (host : ExtensionHost G) : Prop where
  running : host.Running
  current : host.Current

theorem Resolved.of_same (h : host.Resolved) (hsame : SameActive host next) : next.Resolved :=
  ⟨hsame.running h.running, h.current.of_same hsame⟩

theorem Resolved.childCause (h : host.Resolved) {parent cause : CauseContext}
    (hcause : host.childCause parent = some (cause, next)) : next.Resolved := by
  unfold ExtensionHost.childCause at hcause
  split at hcause
  · cases hcause
  · obtain ⟨-, rfl⟩ := Prod.mk.inj (some.inj hcause)
    exact h.of_same (.of_eq rfl rfl rfl)

omit [Platform] in
theorem setCapabilities_runtimes (host : ExtensionHost G) (id other : ExtensionId)
    (snapshot : CapabilitySnapshot) :
    (host.setCapabilities id snapshot).runtimes[other]?.map (·.capabilities) =
      if id = other then host.runtimes[other]?.map fun _ => snapshot
      else host.runtimes[other]?.map (·.capabilities) := by
  unfold setCapabilities
  split
  · rename_i hnone
    split
    · rename_i h
      rw [← h, hnone]
      rfl
    · rfl
  · rename_i runtime hruntime
    rw [runtimes_setRuntime]
    split
    · rename_i h
      rw [← h, hruntime]
      rfl
    · rfl

omit [Platform] in
theorem registry_setCapabilities (host : ExtensionHost G) (id : ExtensionId)
    (snapshot : CapabilitySnapshot) :
    (host.setCapabilities id snapshot).registry = host.registry := by
  unfold setCapabilities
  split <;> rfl

/-- The updates of a reconciliation, applied. -/
def assignCapabilities (host : ExtensionHost G)
    (updates : List (ExtensionId × CapabilitySnapshot)) : ExtensionHost G :=
  updates.foldl (fun host (id, snapshot) => host.setCapabilities id snapshot) host

omit [Platform] in
theorem Quiet.assignCapabilities (host : ExtensionHost G)
    (updates : List (ExtensionId × CapabilitySnapshot)) :
    Quiet host (host.assignCapabilities updates) :=
  foldlRecOn _ _ (.refl host) fun _ h _ _ => h.trans (.setCapabilities ..)

omit [Platform] in
theorem registry_assignCapabilities (host : ExtensionHost G)
    (updates : List (ExtensionId × CapabilitySnapshot)) :
    (host.assignCapabilities updates).registry = host.registry :=
  foldlRecOn updates _ (motive := fun next : ExtensionHost G => next.registry = host.registry)
    rfl fun next h update _ => (registry_setCapabilities next update.1 update.2).trans h

variable {id : ExtensionId}

omit [Platform] in
/-- An extension with updates that agree has the capabilities of these updates. -/
theorem capabilities_assignCapabilities {snapshot : CapabilitySnapshot}
    (updates : List (ExtensionId × CapabilitySnapshot))
    (hagree : ∀ other, (id, other) ∈ updates → other = snapshot)
    (hruntime : host.runtimes[id]?.isSome)
    (hassigned : (id, snapshot) ∈ updates ∨ host.runtimes[id]?.map (·.capabilities) = some snapshot) :
    (host.assignCapabilities updates).runtimes[id]?.map (·.capabilities) = some snapshot := by
  induction updates generalizing host with
  | nil => exact hassigned.resolve_left not_mem_nil
  | cons update updates ih =>
    obtain ⟨other, assigned⟩ := update
    have hnext := setCapabilities_runtimes host other id assigned
    refine @ih (host.setCapabilities other assigned)
      (fun _ hmem => hagree _ (mem_cons_of_mem _ hmem)) ?_ ?_
    · rwa [(Quiet.setCapabilities host other assigned).isSome_runtimes]
    by_cases h : other = id
    · subst h
      obtain ⟨runtime, hruntime⟩ := isSome_iff_exists.mp hruntime
      obtain rfl := hagree assigned mem_cons_self
      rw [if_pos rfl, hruntime] at hnext
      exact .inr hnext
    · rw [if_neg h] at hnext
      rw [hnext]
      refine hassigned.imp_left fun hmem => ?_
      rcases mem_cons.mp hmem with heq | hmem
      · exact absurd (congrArg Prod.fst heq).symm h
      · exact hmem

theorem mem_resolveActive {result : Except HostError CapabilitySnapshot} :
    (id, result) ∈ host.resolveActive ↔
      ∃ record, host.registry[id]? = some record ∧ record.state = .active ∧
        host.resolveCapabilities record.manifest = result := by
  unfold resolveActive
  simp only [List.mem_map, List.mem_filter, decide_eq_true_eq, Prod.exists, mem_toList_iff,
    Prod.mk.injEq]
  constructor
  · rintro ⟨_, record, ⟨hrecord, hactive⟩, rfl, rfl⟩
    exact ⟨record, hrecord, hactive, rfl⟩
  · rintro ⟨record, hrecord, hactive, rfl⟩
    exact ⟨_, record, ⟨hrecord, hactive⟩, rfl, rfl⟩

theorem offered_congr (hregistry : next.registry = host.registry)
    (hruntimes : ∀ extension : ExtensionId, next.runtimes[extension]?.isSome =
      host.runtimes[extension]?.isSome)
    (hoffers : next.hostCapabilities = host.hostCapabilities) (request : CapabilityRequest) :
    next.Offered request ↔ host.Offered request := by
  refine exists_congr fun offer => and_congr ?_ Iff.rfl
  rw [mem_capabilityOffers, mem_capabilityOffers, hoffers, hregistry]
  exact or_congr Iff.rfl (exists_congr fun provider => exists_congr fun record => by
    rw [hruntimes])

/-- The capabilities of the active extensions whose resolution succeeds. -/
def resolvedUpdates (host : ExtensionHost G) : List (ExtensionId × CapabilitySnapshot) :=
  host.resolveActive.filterMap fun (id, result) => result.toOption.map (id, ·)

/-- The active extensions that lack a required capability. -/
def unresolved (host : ExtensionHost G) : List ExtensionId :=
  host.resolveActive.filterMap fun (id, result) =>
    match result with
    | .ok _ => none
    | .error _ => some id

theorem mem_resolvedUpdates {snapshot : CapabilitySnapshot} :
    (id, snapshot) ∈ host.resolvedUpdates ↔
      ∃ record, host.registry[id]? = some record ∧ record.state = .active ∧
        host.resolveCapabilities record.manifest = .ok snapshot := by
  rw [← mem_resolveActive, resolvedUpdates, mem_filterMap]
  constructor
  · rintro ⟨⟨id', result⟩, hresult, heq⟩
    cases result with
    | error error => cases heq
    | ok snapshot' =>
      cases heq
      exact hresult
  · exact fun h => ⟨_, h, rfl⟩

theorem mem_unresolved : id ∈ host.unresolved ↔
    ∃ record, host.registry[id]? = some record ∧ record.state = .active ∧
      ∃ error, host.resolveCapabilities record.manifest = .error error := by
  rw [unresolved, mem_filterMap]
  constructor
  · rintro ⟨⟨id', result⟩, hresult, heq⟩
    cases result with
    | ok snapshot => cases heq
    | error error =>
      cases heq
      obtain ⟨record, hrecord, hactive, hresult⟩ := mem_resolveActive.mp hresult
      exact ⟨record, hrecord, hactive, error, hresult⟩
  · rintro ⟨record, hrecord, hactive, error, hresult⟩
    exact ⟨_, mem_resolveActive.mpr ⟨record, hrecord, hactive, hresult⟩, rfl⟩

theorem current_assignCapabilities (hrunning : host.Running) (hunresolved : host.unresolved = []) :
    (host.assignCapabilities host.resolvedUpdates).Current := by
  have hquiet := Quiet.assignCapabilities host host.resolvedUpdates
  have hregistry := registry_assignCapabilities host host.resolvedUpdates
  intro id record runtime hrecord hactive hruntime
  rw [hregistry] at hrecord
  cases hresult : host.resolveCapabilities record.manifest with
  | error error =>
    have hmem := mem_unresolved.mpr ⟨record, hrecord, hactive, error, hresult⟩
    rw [hunresolved] at hmem
    exact absurd hmem not_mem_nil
  | ok snapshot =>
    have hagree : ∀ other, (id, other) ∈ host.resolvedUpdates → other = snapshot := by
      intro other hother
      obtain ⟨record', hrecord', -, hresult'⟩ := mem_resolvedUpdates.mp hother
      cases hrecord.symm.trans hrecord'
      exact Except.ok.inj (hresult'.symm.trans hresult)
    have hassigned := capabilities_assignCapabilities host.resolvedUpdates hagree
      (hrunning id (state_eq_some.mpr ⟨record, hrecord, hactive⟩))
      (.inl (mem_resolvedUpdates.mpr ⟨record, hrecord, hactive, hresult⟩))
    rw [hruntime, map_some] at hassigned
    rw [some.inj hassigned]
    have hoffered := offered_congr hregistry hquiet.isSome_runtimes hquiet.hostCapabilities
    exact resolveCapabilities_of_offered hresult (fun request _ => (hoffered request).mpr)
      fun request _ => hoffered request

variable [NativeExtension G]

theorem reconcileActiveCapabilities_eq (host : ExtensionHost G) :
    host.reconcileActiveCapabilities = host.unresolved.foldl (fun host id =>
      host.suspendOrIgnore id "required capability provider became unavailable")
      (host.assignCapabilities host.resolvedUpdates) := rfl

/-- Suspensions in hosts with at most `count` active extensions resolve the capabilities again. -/
def Restores (G : Type) [NativeExtension G] (count : Nat) : Prop :=
  ∀ (host : ExtensionHost G) extension reason, host.activeCount ≤ count → host.Running →
    (host.state extension = some .active ∨ host.Current) →
      (host.suspendOrIgnore extension reason).Current

section restoring

variable {count : Nat} (hrestores : Restores G count)

include hrestores

section

variable (h : host.Resolved)

include h

variable (hcount : host.activeCount ≤ count)

include hcount

theorem Resolved.recordViolation_of (extension : ExtensionId) (message : String) :
    (host.recordViolation extension message).Resolved := by
  refine ⟨h.running.of_quiet (.recordViolation ..), ?_⟩
  unfold recordViolation recordViolationBy
  split
  · exact h.current
  · rename_i runtime hruntime
    have hcounted : (host.setRuntime extension { runtime with
        violations := min (runtime.violations + 1) 65535 }).Resolved :=
      h.of_same (.of_setRuntime hruntime rfl)
    dsimp only
    split
    · rename_i hover
      exact hrestores _ _ _ hcount hcounted.running (.inl hover.2)
    · exact hcounted.current

theorem Resolved.enqueueEventInternal_of (target : ExtensionId) (source : EventSource)
    (event : ExtensionEvent) (cause : CauseContext) (rootCause : CauseId) :
    (host.enqueueEventInternal target source event cause rootCause).2.Resolved := by
  unfold enqueueEventInternal enqueueEventInternalBy
  split
  · exact h
  split
  · exact h.recordViolation_of hrestores hcount ..
  split
  · exact h.recordViolation_of hrestores hcount ..
  · exact h.of_same (.of_eq rfl rfl rfl)

theorem Resolved.enqueueHostEvent_of (target : ExtensionId) (event : ExtensionEvent) :
    (host.enqueueHostEvent target event).2.Resolved := by
  have hrooted : host.rootCause.2.Resolved := h.of_same (.of_eq rfl rfl rfl)
  have hqueued := hrooted.enqueueEventInternal_of hrestores hcount target .host event
    host.rootCause.1 host.rootCause.1.id
  unfold enqueueHostEvent enqueueHostEventBy
  dsimp only
  split <;> rename_i heq <;>
    exact (congrArg (fun result => result.2.Resolved) heq).mp hqueued

theorem Resolved.broadcastCapabilityChanges_of : host.broadcastCapabilityChanges.Resolved := by
  unfold broadcastCapabilityChanges broadcastCapabilityChangesBy
  refine (foldlRecOn (motive := fun next : ExtensionHost G =>
    next.Resolved ∧ next.activeCount ≤ count) _ _ ⟨h, hcount⟩ ?_).1
  rintro next ⟨hresolved, hcount⟩ update -
  exact ⟨hresolved.enqueueHostEvent_of hrestores hcount .., Nat.le_trans
    (Quiet.enqueueHostEvent next update.1 _).activeCount_le hcount⟩

end

theorem current_of_suspensions (suspended : List ExtensionId) (reason : String)
    (hcount : host.activeCount ≤ count) (hrunning : host.Running)
    (hfirst : host.Current ∨ ∃ first, suspended.head? = some first ∧ host.state first = some .active) :
    (suspended.foldl (fun host id => host.suspendOrIgnore id reason) host).Current := by
  induction suspended generalizing host with
  | nil => simpa using hfirst
  | cons first suspended ih =>
    have hquiet := Quiet.suspendOrIgnore host first reason
    refine ih (Nat.le_trans hquiet.activeCount_le hcount) (hrunning.of_quiet hquiet) (.inl ?_)
    refine hrestores host first reason hcount hrunning ?_
    rcases hfirst with hcurrent | ⟨_, hhead, hactive⟩
    · exact .inr hcurrent
    · cases hhead
      exact .inl hactive

theorem resolved_reconcile_of (hrunning : host.Running) (hcount : host.activeCount ≤ count) :
    host.reconcileActiveCapabilities.Resolved := by
  refine ⟨hrunning.of_quiet (.reconcileActiveCapabilities host), ?_⟩
  have hquiet := Quiet.assignCapabilities host host.resolvedUpdates
  rw [reconcileActiveCapabilities_eq]
  refine current_of_suspensions hrestores _ _ (Nat.le_trans hquiet.activeCount_le hcount)
    (hrunning.of_quiet hquiet) ?_
  cases hunresolved : host.unresolved with
  | nil => exact .inl (current_assignCapabilities hrunning hunresolved)
  | cons first rest =>
    obtain ⟨record, hrecord, hactive, -⟩ := mem_unresolved.mp (hunresolved ▸ mem_cons_self)
    refine .inr ⟨first, rfl, state_eq_some.mpr ⟨record, ?_, hactive⟩⟩
    rwa [registry_assignCapabilities]

end restoring

theorem restores (count : Nat) : Restores G count := by
  induction count with
  | zero =>
    intro host extension reason hcount _ hcurrent
    have hstate := state_of_activeCount_eq_zero (Nat.le_zero.mp hcount) extension
    unfold suspendOrIgnore
    rw [suspendFuel_inactive _ hstate]
    exact hcurrent.resolve_left hstate
  | succ count ih =>
    intro host extension reason hcount hrunning hcurrent
    by_cases hstate : host.state extension = some .active
    · obtain ⟨record, hrecord, hactive⟩ := state_eq_some.mp hstate
      rw [suspendOrIgnore_eq, suspend, suspendBy_active suspendOrIgnore reason hrecord hactive]
      have hwithdraw := Quiet.withdraw reason hrecord hactive
      have hfewer := activeCount_withdraw_lt reason hrecord hactive
      have hreconciled := resolved_reconcile_of ih (hrunning.of_quiet hwithdraw) (by omega)
      refine (hreconciled.broadcastCapabilityChanges_of ih (Nat.le_trans
        (Quiet.reconcileActiveCapabilities _).activeCount_le ?_)).current
      omega
    · unfold suspendOrIgnore
      rw [suspendFuel_inactive _ hstate]
      exact hcurrent.resolve_left hstate

section

variable (h : host.Resolved)

include h

theorem Resolved.recordViolation (extension : ExtensionId) (message : String) :
    (host.recordViolation extension message).Resolved :=
  h.recordViolation_of (restores _) le_rfl extension message

theorem Resolved.enqueueEventInternal (target : ExtensionId) (source : EventSource)
    (event : ExtensionEvent) (cause : CauseContext) (rootCause : CauseId) :
    (host.enqueueEventInternal target source event cause rootCause).2.Resolved :=
  h.enqueueEventInternal_of (restores _) le_rfl ..

theorem Resolved.enqueueHostEvent (target : ExtensionId)
    (event : ExtensionEvent) : (host.enqueueHostEvent target event).2.Resolved :=
  h.enqueueHostEvent_of (restores _) le_rfl target event

theorem Resolved.broadcastCapabilityChanges : host.broadcastCapabilityChanges.Resolved :=
  h.broadcastCapabilityChanges_of (restores _) le_rfl

end

theorem Running.reconcile (h : host.Running) : host.reconcileActiveCapabilities.Resolved :=
  resolved_reconcile_of (restores _) h le_rfl

theorem Resolved.suspendOrIgnore (h : host.Resolved) (extension : ExtensionId) (reason : String) :
    (host.suspendOrIgnore extension reason).Resolved :=
  ⟨h.running.of_quiet (.suspendOrIgnore ..),
    restores _ host extension reason le_rfl h.running (.inr h.current)⟩

theorem Resolved.suspend (h : host.Resolved) {reason : String}
    (hnext : host.suspend extension reason = .ok next) : next.Resolved := by
  have hsuspended := h.suspendOrIgnore extension reason
  rwa [suspendOrIgnore_eq, hnext] at hsuspended

theorem Resolved.enqueueExtensionEvent (h : host.Resolved) (source target : ExtensionId)
    (parent : CauseContext) (event : ExtensionEvent) :
    (host.enqueueExtensionEvent source target parent event).2.Resolved := by
  unfold ExtensionHost.enqueueExtensionEvent
  split
  · exact h
  split
  · exact h.recordViolation ..
  · rename_i cause next hcause
    have hcaused := (h.childCause hcause).enqueueEventInternal target (.extension source) event
      cause parent.id
    split <;> rename_i heq <;> rwa [heq] at hcaused

end ExtensionHost

end KeyReader.Extension
