import KeyReader.Extension.Lifecycle

/-! What the host owns in the state of an extension: the fields of host snapshots, the settings and,
outside of the state, the sensitive settings. -/

namespace KeyReader.Extension

open List Option

namespace ExtensionHost

variable {G : Type}

theorem extensionState_setRuntime (host : ExtensionHost G) (extension other : ExtensionId)
    (runtime : ActiveRuntime G) : (host.setRuntime extension runtime).extensionState other =
      if extension = other then runtime.state else host.extensionState other := by
  unfold extensionState
  rw [runtimes_setRuntime]
  split <;> rfl

variable [Platform] [NativeExtension G]

section

variable (host : ExtensionHost G)

section

variable (extension : ExtensionId) (generation : GenerationId)

theorem extensionState_replaceState (state : Fields) (allow : Bool) (other : ExtensionId) :
    (host.replaceState extension generation state allow).extensionState other =
        host.extensionState other ∨
      (extension = other ∧
        (host.replaceState extension generation state allow).extensionState other =
          if allow then state
          else preserveHostStateNamespaces (host.extensionState extension) state) := by
  unfold replaceState
  generalize (if allow then state else
    preserveHostStateNamespaces (host.extensionState extension) state) = incoming
  by_cases hbounded : stateIsBounded incoming host.config.validationLimits
  · rw [if_pos hbounded]
    split
    · exact .inl rfl
    split
    · exact .inl rfl
    · rename_i runtime _ _
      have hset := host.extensionState_setRuntime extension other { runtime with state := incoming }
      by_cases h : extension = other
      · exact .inr ⟨h, hset.trans (if_pos h)⟩
      · exact .inl (hset.trans (if_neg h))
  · rw [if_neg hbounded]
    exact .inl ((Quiet.recordViolation ..).extensionState other)

section

variable (cause : CauseContext)

theorem extensionState_arbitrateEffects (requests : List EffectRequest)
    (turn : ExtensionHost G × List AcceptedEffect) (other : ExtensionId) :
    (requests.foldl (arbitrateEffect extension generation cause) turn).1.extensionState other =
      turn.1.extensionState other := by
  refine foldlRecOn requests _ (motive := fun next : ExtensionHost G × List AcceptedEffect =>
    next.1.extensionState other = turn.1.extensionState other) rfl fun next h request _ => ?_
  rcases arbitrateEffect_cases next.1 next.2 extension generation cause request with
    ⟨error, -, heq⟩ | ⟨-, leader, heq⟩
  · show (arbitrateEffect extension generation cause (next.1, next.2) request).1.extensionState _ = _
    rw [heq]
    exact ((Quiet.queueEffectCompleted ..).extensionState other).trans h
  · show (arbitrateEffect extension generation cause (next.1, next.2) request).1.extensionState _ = _
    rw [heq]
    exact h

theorem extensionState_arbitrateUpdateInternal (update : ExtensionUpdate)
    (accepted : List AcceptedEffect) (allow : Bool) (other : ExtensionId) :
    (host.arbitrateUpdateInternal extension generation cause update accepted allow).1.extensionState
        other = host.extensionState other ∨
      (extension = other ∧ ∃ state ∈ update.state,
        (host.arbitrateUpdateInternal extension generation cause update accepted
            allow).1.extensionState other = if allow then state
          else preserveHostStateNamespaces (host.extensionState extension) state) := by
  have hrest : (host.arbitrateUpdateInternal extension generation cause update accepted
      allow).1.extensionState other =
        (host.arbitrateState extension generation update.state allow).extensionState other := by
    unfold arbitrateUpdateInternal
    rw [extensionState_arbitrateEffects]
    unfold arbitrateBatch
    split
    · exact (Quiet.recordViolation ..).extensionState other
    · rfl
  rw [hrest]
  cases hstate : update.state with
  | none => exact .inl rfl
  | some state =>
    rcases host.extensionState_replaceState extension generation state allow other with h | ⟨h, heq⟩
    · exact .inl h
    · exact .inr ⟨h, state, rfl, heq⟩

theorem get_arbitrateUpdate (update : ExtensionUpdate) (accepted : List AcceptedEffect)
    (other : ExtensionId) {key : String} (hkey : key ∈ hostStateNamespaces) :
    Assoc.get key ((host.arbitrateUpdate extension generation cause update
      accepted).1.extensionState other) = Assoc.get key (host.extensionState other) := by
  rcases host.extensionState_arbitrateUpdateInternal extension generation cause update accepted false
    other with h | ⟨rfl, state, -, h⟩
  · exact congrArg (Assoc.get key) h
  · exact (congrArg (Assoc.get key) h).trans (get_preserveHostStateNamespaces hkey)

end

end

/-- The snapshot of an event enters the field of its kind. -/
theorem get_applySnapshot (extension other : ExtensionId) (envelope : EventEnvelope)
    (key : String) :
    Assoc.get key ((host.applySnapshot extension envelope).extensionState other) =
        Assoc.get key (host.extensionState other) ∨
      (extension = other ∧ ∃ kind value, snapshotStateUpdate envelope = some (kind, value) ∧
        key = snapshotNamespace kind) := by
  unfold applySnapshot
  split
  · rename_i kind value hsnapshot
    by_cases hkey : extension = other ∧ key = snapshotNamespace kind
    · exact .inr ⟨hkey.1, kind, value, hsnapshot, hkey.2⟩
    · left
      unfold replaceSnapshotState
      split
      · rw [(Quiet.recordViolation ..).extensionState]
      split
      · rfl
      · rename_i runtime hruntime
        have hstate : extension = other → host.extensionState other = runtime.state := by
          rintro rfl
          unfold ExtensionHost.extensionState
          rw [hruntime]
          rfl
        have hset : ∀ state, (extension = other → Assoc.get key state = Assoc.get key runtime.state) →
            Assoc.get key ((host.setRuntime extension { runtime with state }).extensionState other) =
              Assoc.get key (host.extensionState other) := by
          intro state hsame
          rw [extensionState_setRuntime]
          split
          · rename_i h
            rw [hstate h]
            exact hsame h
          · rfl
        have hne : extension = other → snapshotNamespace kind ≠ key :=
          fun h heq => hkey ⟨h, heq.symm⟩
        have hinserted : extension = other → ∀ inserted,
            Assoc.get key (Assoc.insert (snapshotNamespace kind) inserted runtime.state) =
              Assoc.get key runtime.state := by
          intro h inserted
          rw [Assoc.get_insert, if_neg (hne h)]
        dsimp only
        split
        · exact hset _ fun h => hinserted h value
        · rw [(Quiet.recordViolation ..).extensionState]
          refine hset _ fun h => ?_
          split
          · rw [Assoc.get_insert, if_neg (hne h)]
            exact hinserted h value
          · rw [Assoc.get_remove, if_neg (hne h)]
            exact hinserted h value
  · exact .inl rfl

end

structure Sets (manifest : ExtensionManifest) (envelope : EventEnvelope)
    (setting : SettingDefinition) (payload : DataValue) : Prop where
  source : envelope.source = .host
  bound : ∃ behavior ∈ manifest.contributions.commandBehaviors,
    envelope.event = .commandInvoked behavior.command payload ∧
      behavior.action = .setState ⟨"settings" :: setting.path⟩
  writable : ¬setting.sensitive
  accepts : setting.valueType.accepts payload

def SetBy (behaviors : List CommandBehavior) (setting : SettingDefinition) (payload : DataValue) :
    Prop :=
  ¬setting.sensitive ∧ setting.valueType.accepts payload ∧
    ∃ behavior ∈ behaviors, behavior.action = .setState ⟨"settings" :: setting.path⟩

section behaviors

variable {host : ExtensionHost G} {extension : ExtensionId} {manifest : ExtensionManifest}
  {metadata : PackageMetadata} {behaviors : List CommandBehavior} {setting : SettingDefinition}
  (hpackage : host.package extension = some (manifest, metadata))
  (hseparate : manifest.SeparateSettings) (haimed : manifest.Aimed)
  (hdeclared : host.Declares extension behaviors) (hsetting : setting ∈ manifest.settings)

include hpackage hseparate haimed hdeclared hsetting

theorem setting_applyBehavior {turn : Fields × ExtensionHost G} (hquiet : Quiet host turn.2)
    {behavior : CommandBehavior} (hmem : behavior ∈ behaviors) (payload : DataValue) :
    getDataPath (applyBehavior extension payload turn behavior).1 ("settings" :: setting.path) =
        getDataPath turn.1 ("settings" :: setting.path) ∨
      (SetBy behaviors setting payload ∧
        getDataPath (applyBehavior extension payload turn behavior).1
          ("settings" :: setting.path) = some payload) := by
  unfold applyBehavior
  dsimp only
  split
  · rename_i binding haction
    split
    · rename_i haccepts
      rw [settingAccepts_congr (hquiet.package extension)] at haccepts
      by_cases hhead : binding.segments.head? = some "settings"
      · obtain ⟨other, hother, hkey, htakes⟩ := settingAccepts_of_package hpackage haccepts hhead
        obtain ⟨hother, hopen⟩ := ExtensionManifest.mem_openSettings.mp hother
        obtain ⟨manifest', metadata', hpackage', hbehavior⟩ := hdeclared behavior hmem
        cases hpackage.symm.trans hpackage'
        have hsegments : binding.segments = "settings" :: other.path := by
          rw [haimed behavior hbehavior binding haction hhead, ← hkey]
          rfl
        have hbinding : binding = ⟨"settings" :: other.path⟩ := congrArg StateBinding.mk hsegments
        subst hbinding
        by_cases hapart : Apart other.path setting.path
        · exact .inl (getDataPath_setPath_of_apart turn.1 payload (apart_cons.mpr hapart))
        · -- the binding is that of the setting itself
          obtain rfl := hseparate.eq_of_path hother hsetting hapart
          exact .inr ⟨⟨hopen, htakes, behavior, hmem, haction⟩,
            getDataPath_setPath_self turn.1 payload (cons_ne_nil _ _)⟩
      · exact .inl (getDataPath_congr (get_setPath hhead) setting.path)
    · exact .inl rfl
  · exact .inl rfl

omit hpackage hseparate haimed hdeclared hsetting in
theorem setting_behaviorState (host : ExtensionHost G) (extension : ExtensionId)
    (state : Option Fields) (path : List String) :
    getDataPath (host.behaviorState extension state).1 ("settings" :: path) =
      getDataPath (host.extensionState extension) ("settings" :: path) := by
  have hmem : "settings" ∈ hostStateNamespaces := by decide
  unfold behaviorState
  cases state with
  | none => rfl
  | some state =>
    dsimp only
    split
    · exact getDataPath_congr (get_preserveHostStateNamespaces hmem) path
    · rfl

theorem setting_mergeState (payload : DataValue) (state : Option Fields) :
    ∀ fields ∈ (host.mergeState extension payload behaviors state).1,
      getDataPath fields ("settings" :: setting.path) =
          getDataPath (host.extensionState extension) ("settings" :: setting.path) ∨
        (SetBy behaviors setting payload ∧
          getDataPath fields ("settings" :: setting.path) = some payload) := by
  unfold mergeState
  split
  · intro fields hfields
    cases hfields
    have hrun := foldlRecOn behaviors (applyBehavior extension payload)
      (motive := fun turn : Fields × ExtensionHost G => Charges False host turn.2 ∧
        (getDataPath turn.1 ("settings" :: setting.path) =
            getDataPath (host.extensionState extension) ("settings" :: setting.path) ∨
          (SetBy behaviors setting payload ∧
            getDataPath turn.1 ("settings" :: setting.path) = some payload)))
      ⟨.behaviorState host extension state, .inl (setting_behaviorState host extension state _)⟩
      fun turn h behavior hmem => by
        refine ⟨h.1.trans (.applyBehavior ..), ?_⟩
        rcases setting_applyBehavior hpackage hseparate haimed hdeclared hsetting h.1.quiet hmem
          payload with heq | hset
        · rw [heq]
          exact h.2
        · exact .inr hset
    exact hrun.2
  · intro fields hfields
    obtain ⟨incoming, -, rfl⟩ := map_eq_some_iff.mp hfields
    have hmem : "settings" ∈ hostStateNamespaces := by decide
    exact .inl (getDataPath_congr (get_preserveHostStateNamespaces hmem) setting.path)

end behaviors

section

variable (host : ExtensionHost G) (extension : ExtensionId)

variable (generation : GenerationId) (envelope : EventEnvelope)

variable (update : ExtensionUpdate) (accepted : List AcceptedEffect)

/-- The host with the update that answers an event, before the snapshot of the event enters. -/
def takeUpdate :
    ExtensionHost G :=
  let merged := host.mergeCommandBehaviors extension envelope
    (host.commandBehaviorsForEvent extension envelope) update
  (merged.2.arbitrateUpdateInternal extension generation envelope.cause merged.1 accepted
    envelope.event.isCommand).1

theorem applyUpdate_eq : (host.applyUpdate extension generation envelope
        (host.commandBehaviorsForEvent extension envelope) update accepted).1 =
      (host.takeUpdate extension generation envelope update accepted).applySnapshot extension
        envelope := rfl

theorem extensionState_takeUpdate (other : ExtensionId) :
    (host.takeUpdate extension generation envelope update accepted).extensionState other =
        host.extensionState other ∨
      (extension = other ∧ ((∃ command payload, envelope.event = .commandInvoked command payload ∧
            (host.takeUpdate extension generation envelope update accepted).extensionState other ∈
              (host.mergeState extension payload (host.commandBehaviorsForEvent extension envelope)
                update.state).1) ∨
          ∃ state,
            (host.takeUpdate extension generation envelope update accepted).extensionState other =
              preserveHostStateNamespaces (host.extensionState extension) state)) := by
  have hcharged : Charges False host _ := .mergeCommandBehaviors host extension envelope
    (host.commandBehaviorsForEvent extension envelope) update
  unfold takeUpdate
  rcases extensionState_arbitrateUpdateInternal (host.mergeCommandBehaviors extension envelope
      (host.commandBehaviorsForEvent extension envelope) update).2 extension generation envelope.cause
    (host.mergeCommandBehaviors extension envelope (host.commandBehaviorsForEvent extension envelope)
      update).1 accepted envelope.event.isCommand other with h | ⟨rfl, state, hstate, h⟩
  · exact .inl (h.trans (hcharged.quiet.extensionState other))
  · refine .inr ⟨rfl, ?_⟩
    rw [h]
    cases hevent : envelope.event
    case commandInvoked command payload =>
      refine .inl ⟨command, payload, rfl, ?_⟩
      unfold mergeCommandBehaviors at hstate
      rw [hevent] at hstate
      exact hstate
    all_goals exact .inr ⟨state, by rw [hcharged.quiet.extensionState]; rfl⟩

end

variable {host : ExtensionHost G}

theorem get_takeUpdate (hvetted : host.Vetted) (extension : ExtensionId) (generation : GenerationId)
    (envelope : EventEnvelope) (update : ExtensionUpdate) (accepted : List AcceptedEffect)
    (other : ExtensionId) (kind : SnapshotKind) : Assoc.get (snapshotNamespace kind)
        ((host.takeUpdate extension generation envelope update accepted).extensionState other) =
      Assoc.get (snapshotNamespace kind) (host.extensionState other) := by
  rcases host.extensionState_takeUpdate extension generation envelope update accepted other with
    h | ⟨rfl, ⟨command, payload, -, hmem⟩ | ⟨state, h⟩⟩
  · rw [h]
  · exact (keepsOwned_mergeState (host.declares_commandBehaviorsForEvent extension envelope) _
      hmem).snapshots hvetted kind
  · rw [h]
    exact get_preserveHostStateNamespaces (snapshotNamespace_mem kind)

theorem get_applyUpdate (hvetted : host.Vetted) (extension : ExtensionId)
    (generation : GenerationId) (envelope : EventEnvelope) (update : ExtensionUpdate)
    (accepted : List AcceptedEffect) (other : ExtensionId) (kind : SnapshotKind)
    (hchanged : Assoc.get (snapshotNamespace kind) ((host.applyUpdate extension generation envelope
      (host.commandBehaviorsForEvent extension envelope) update accepted).1.extensionState other) ≠
        Assoc.get (snapshotNamespace kind) (host.extensionState other)) :
    extension = other ∧ ∃ value, snapshotStateUpdate envelope = some (kind, value) := by
  rw [applyUpdate_eq, ← get_takeUpdate hvetted extension generation envelope update accepted] at hchanged
  rcases get_applySnapshot (host.takeUpdate extension generation envelope update accepted) extension
    other envelope (snapshotNamespace kind) with h | ⟨hother, kind', value, hsnapshot, hkind⟩
  · exact absurd h hchanged
  · obtain rfl := snapshotNamespace_injective hkind
    exact ⟨hother, value, hsnapshot⟩

omit [Platform] [NativeExtension G] in
theorem sets_of_setBy {extension : ExtensionId} {manifest : ExtensionManifest}
    {metadata : PackageMetadata} (hpackage : host.package extension = some (manifest, metadata))
    {envelope : EventEnvelope} {command : CommandId} {payload : DataValue}
    (hevent : envelope.event = .commandInvoked command payload) {setting : SettingDefinition}
    (h : SetBy (host.commandBehaviorsForEvent extension envelope) setting payload) :
    Sets manifest envelope setting payload := by
  obtain ⟨hopen, htakes, behavior, hmem, haction⟩ := h
  obtain ⟨record, hrecord, hmanifest⟩ := map_eq_some_iff.mp hpackage
  obtain rfl : record.manifest = manifest := congrArg Prod.fst hmanifest
  unfold commandBehaviorsForEvent at hmem
  rw [hevent, hrecord] at hmem
  cases hsource : envelope.source with
  | extension id =>
    rw [hsource] at hmem
    exact absurd hmem not_mem_nil
  | host =>
    rw [hsource] at hmem
    obtain ⟨hmem, hcommand⟩ := mem_filter.mp hmem
    refine ⟨hsource, ⟨behavior, hmem, ?_, haction⟩, hopen, htakes⟩
    rw [hevent, of_decide_eq_true hcommand]

theorem setting_applyUpdate {extension other : ExtensionId} {manifest : ExtensionManifest}
    {metadata : PackageMetadata} {setting : SettingDefinition}
    (hpackage : host.package other = some (manifest, metadata))
    (hseparate : manifest.SeparateSettings) (haimed : manifest.Aimed)
    (hsetting : setting ∈ manifest.settings) (generation : GenerationId) (envelope : EventEnvelope)
    (update : ExtensionUpdate) (accepted : List AcceptedEffect)
    (hchanged : getDataPath ((host.applyUpdate extension generation envelope
      (host.commandBehaviorsForEvent extension envelope) update accepted).1.extensionState other)
        ("settings" :: setting.path) ≠
      getDataPath (host.extensionState other) ("settings" :: setting.path)) :
    extension = other ∧ ∃ payload, Sets manifest envelope setting payload ∧
      getDataPath ((host.applyUpdate extension generation envelope
        (host.commandBehaviorsForEvent extension envelope) update accepted).1.extensionState other)
          ("settings" :: setting.path) = some payload := by
  have hsnapshot : getDataPath ((host.applyUpdate extension generation envelope
      (host.commandBehaviorsForEvent extension envelope) update accepted).1.extensionState other)
        ("settings" :: setting.path) =
      getDataPath ((host.takeUpdate extension generation envelope update accepted).extensionState
        other) ("settings" :: setting.path) := by
    rw [applyUpdate_eq]
    refine getDataPath_congr ?_ setting.path
    rcases get_applySnapshot (host.takeUpdate extension generation envelope update accepted) extension
      other envelope "settings" with h | ⟨-, kind, value, -, hkind⟩
    · exact h
    · exact absurd hkind.symm (snapshotNamespace_ne_settings kind)
  rw [hsnapshot] at hchanged ⊢
  rcases host.extensionState_takeUpdate extension generation envelope update accepted other with
    h | ⟨rfl, ⟨command, payload, hevent, hmem⟩ | ⟨state, h⟩⟩
  · exact absurd (by rw [h]) hchanged
  · rcases setting_mergeState hpackage hseparate haimed
      (host.declares_commandBehaviorsForEvent extension envelope) hsetting payload update.state _
      hmem with h | ⟨hset, h⟩
    · exact absurd h hchanged
    · exact ⟨rfl, payload, sets_of_setBy hpackage hevent hset, h⟩
  · refine absurd ?_ hchanged
    rw [h]
    have howned : "settings" ∈ hostStateNamespaces := by decide
    exact getDataPath_congr (get_preserveHostStateNamespaces howned) setting.path

end ExtensionHost

end KeyReader.Extension
